import TickScript.Machine.Step

/-!
# What a step can come to

A step stays where it is, fails before it has begun, or runs what is next (`StepCase`): the end of a body
or an instruction (`NextCase`). A call of a function of the host waits for its host (`Asks`). All else comes
to something by itself, and whatever that is, it leaves the program, its limits, the budget and the log
alone (`Comes`).

Most instructions only work on values (`Instr.worksOnValues`). They leave the control stack alone too, and
no local but the running function's own (`Worked`).
-/

namespace TickScript

/-- Whether the instruction only works on values: it enters and leaves no body, marks no place and asks no
host. -/
def Instr.worksOnValues {ν σ : Type} : Instr ν σ → Bool
  | .line _ | .file _ | .branch _ _ | .loop _ | .tick _ | .continueLoop | .breakLoop | .call _
  | .callBuiltin _ | .giveBack => false
  | _ => true

namespace Machine

/-! ## The ways of a step -/

/-- What a step does, and when. -/
inductive StepCase (m : Machine) : Prop where
  | complete (phase : m.phase = .complete) (step : m.step = (m, .complete))
  | faulted (f : Fault) (phase : m.phase = .faulted f) (step : m.step = (m, .fault f))
  | unanswered (phase : m.phase = .awaiting) (step : m.step = m.stop .callPending)
  | unpaid (phase : m.phase = .running) (budget : m.limits.instructions ≤ m.spent)
      (step : m.step = (m, .budgetSpent))
  | overfull (phase : m.phase = .running) (budget : m.spent < m.limits.instructions)
      (memory : m.limits.memory < m.usedMemory) (step : m.step = m.stop .memoryExceeded)
  | made (phase : m.phase = .running) (budget : m.spent < m.limits.instructions)
      (memory : m.usedMemory ≤ m.limits.memory)
      (step : m.step = ({ m with spent := m.spent + 1 } : Machine).execNext)

/-- What a running machine does with a step that it has budget for. -/
theorem step_of_running {m : Machine} (hp : m.phase = .running)
    (hb : ¬ m.limits.instructions ≤ m.spent) :
    m.step = if m.limits.memory < m.usedMemory then m.stop .memoryExceeded
      else { m with spent := m.spent + 1 }.execNext := by
  unfold step
  rw [hp]
  exact if_neg hb

/-- Every step is one of the cases. -/
theorem stepCase (m : Machine) : m.StepCase := by
  cases hp : m.phase with
  | complete =>
    refine .complete hp ?_
    unfold step
    rw [hp]
  | faulted f =>
    refine .faulted f hp ?_
    unfold step
    rw [hp]
  | awaiting =>
    refine .unanswered hp ?_
    unfold step
    rw [hp]
  | running =>
    by_cases hb : m.limits.instructions ≤ m.spent
    · refine .unpaid hp hb ?_
      unfold step
      rw [hp]
      exact if_pos hb
    · have hs := step_of_running hp hb
      by_cases hu : m.limits.memory < m.usedMemory
      · exact .overfull hp (Nat.lt_of_not_le hb) hu (hs.trans (if_pos hu))
      · exact .made hp (Nat.lt_of_not_le hb) (Nat.le_of_not_lt hu) (hs.trans (if_neg hu))

/-! ## Leaving bodies -/

/-- Going back to the caller changes the calls and the place at most. -/
theorem returnToCaller_eq (m : Machine) :
    ∃ calls location, m.returnToCaller = { m with calls, location } := by
  unfold returnToCaller
  split
  · exact ⟨m.calls, m.location, rfl⟩
  · exact ⟨_, _, rfl⟩

/-- Leaving branches changes the locals, the heap and the frames at most. -/
theorem leaveBranches_eq (m : Machine) (frames : List Frame) :
    ∃ locals heap left, m.leaveBranches frames = { m with locals, heap, frames := left } := by
  induction frames generalizing m with
  | nil => exact ⟨m.locals, m.heap, [], rfl⟩
  | cons f frames ih =>
    rw [leaveBranches]
    split
    · exact ih (m.truncate f.base)
    · exact ⟨m.locals, m.heap, f :: frames, rfl⟩

/-- Leaving a function changes the locals, the heap and the frames at most. -/
theorem leaveFunction_eq (m : Machine) (frames : List Frame) :
    ∃ locals heap left, (m.leaveFunction frames).1 = { m with locals, heap, frames := left } := by
  induction frames generalizing m with
  | nil => exact ⟨m.locals, m.heap, [], rfl⟩
  | cons f frames ih =>
    rw [leaveFunction]
    split
    · exact ⟨_, _, frames, rfl⟩
    · exact ⟨_, _, frames, rfl⟩
    · exact ih (m.truncate f.base)

theorem phase_returnToCaller (m : Machine) : m.returnToCaller.phase = m.phase := by
  obtain ⟨calls, location, he⟩ := m.returnToCaller_eq
  rw [he]

theorem phase_leaveBranches (m : Machine) (frames : List Frame) :
    (m.leaveBranches frames).phase = m.phase := by
  obtain ⟨locals, heap, left, he⟩ := m.leaveBranches_eq frames
  rw [he]

theorem phase_leaveFunction (m : Machine) (frames : List Frame) :
    (m.leaveFunction frames).1.phase = m.phase := by
  obtain ⟨locals, heap, left, he⟩ := m.leaveFunction_eq frames
  rw [he]

/-- A machine is at a loop when the frame on top runs one. -/
theorem kind_of_atLoop {m : Machine} {f : Frame} {frames : List Frame} (h : m.atLoop = true)
    (hm : m.frames = f :: frames) : f.kind = .loop ∨ f.kind = .tick := by
  unfold atLoop at h
  rw [hm] at h
  simpa using h

/-! ## Instructions that work on values -/

/-- What working on values leaves of a machine: everything but operands, globals and cells, and the locals
but for one that the running function makes or owns. -/
inductive Worked (m : Machine) : Machine → Prop
  | kept (operands globals : List Value) (heap : Heap) : Worked m { m with operands, globals, heap }
  | pushed (operands : List Value) (v : Value) : Worked m { m with operands, locals := v :: m.locals }
  | changed (operands : List Value) (heap : Heap) {slot : Nat} (v : Value) (owned : m.ownsLocal slot) :
      Worked m { m with operands, heap, locals := m.locals.set slot v }

/-- What work on values comes to: the machine goes on or stops, with all else as it was. -/
inductive Works (m : Machine) : Machine × Status → Prop
  | goes {m' : Machine} (worked : Worked m m') : Works m m'.go
  | stops {m' : Machine} (worked : Worked m m') (cause : Cause) : Works m (m'.stop cause)

/-- An instruction on values does nothing but work on them. -/
theorem works_exec (m : Machine) {op : Op} (h : op.worksOnValues) : Works m (m.exec op) := by
  cases op with
  | line | file | branch | loop | tick | continueLoop | breakLoop | call | callBuiltin | giveBack =>
    exact nomatch h
  | pushLocal =>
    simp only [exec, pushLocal]
    split
    · exact .stops (.kept _ _ _) _
    · exact .goes (.pushed _ _)
  | storeLocal slot =>
    simp only [exec, storeLocal]
    split
    · exact .stops (.kept _ _ _) _
    · split
      · split
        · next owned => exact .goes (.changed _ _ _ owned)
        · exact .stops (.kept _ _ _) _
      · exact .stops (.kept _ _ _) _
  | _ =>
    -- None of the others touches the locals.
    simp only [exec, makeTuple, makeObject, makeArray, tupleMember, objectMember, element, loadGlobal,
      loadLocal, unary, binary, storeGlobal, storeMember, storeElement]
    repeat' split
    all_goals first
      | exact .goes (.kept _ _ _)
      | exact .stops (.kept _ _ _) _

/-! ## What everything else comes to -/

/-- The same program runs under the same limits, with as much spent and the same log. -/
structure Alike (m m' : Machine) : Prop where
  image : m'.image = m.image
  shapes : m'.shapes = m.shapes
  limits : m'.limits = m.limits
  spent : m'.spent = m.spent
  log : m'.log = m.log

/-- What the end of a body comes to, and every instruction that the machine can run by itself. A machine
that goes on, now or in the next tick, is in the phase it was in; a failure names the place and the calls
from before. -/
inductive Comes (m : Machine) : Machine × Status → Prop
  | goes {m' : Machine} (alike : Alike m m') (phase : m'.phase = m.phase) : Comes m (m', .running)
  | yields {m' : Machine} (alike : Alike m m') (phase : m'.phase = m.phase) : Comes m (m', .yielded)
  | completes {m' : Machine} (alike : Alike m m') (phase : m'.phase = .complete) : Comes m (m', .complete)
  | stops {m' : Machine} {cause : Cause} (alike : Alike m m') (location : m'.location = m.location)
      (calls : m'.calls = m.calls) : Comes m (m'.stop cause)

variable {m m' : Machine} {result : Machine × Status}

/-- What both of two steps leave alone stays the same over the two. -/
theorem Alike.trans {a b c : Machine} (h : Alike a b) (h' : Alike b c) : Alike a c where
  image := h'.image.trans h.image
  shapes := h'.shapes.trans h.shapes
  limits := h'.limits.trans h.limits
  spent := h'.spent.trans h.spent
  log := h'.log.trans h.log

namespace Comes

/-- What comes after a change that keeps all this. -/
theorem after (h : Comes m' result) (alike : Alike m m') (phase : m'.phase = m.phase)
    (location : m'.location = m.location) (calls : m'.calls = m.calls) : Comes m result := by
  cases h with
  | goes h hp => exact .goes (alike.trans h) (hp.trans phase)
  | yields h hp => exact .yields (alike.trans h) (hp.trans phase)
  | completes h hp => exact .completes (alike.trans h) hp
  | stops h hl hc => exact .stops (alike.trans h) (hl.trans location) (hc.trans calls)

/-- Whatever a step comes to, it leaves alone what every step leaves alone. -/
theorem alike (h : Comes m result) : Alike m result.1 := by
  cases h with
  | goes h | yields h | completes h => exact h
  | stops h => exact ⟨h.image, h.shapes, h.limits, h.spent, h.log⟩

end Comes

/-- What works on values is one of the ways that a step can come out. -/
theorem Works.comes (h : Works m result) : Comes m result := by
  cases h with
  | goes h => cases h <;> exact .goes ⟨rfl, rfl, rfl, rfl, rfl⟩ rfl
  | stops h cause => cases h <;> exact .stops ⟨rfl, rfl, rfl, rfl, rfl⟩ rfl rfl

/-- The end of a frame is one of the ways that a step can come out. -/
theorem comes_endFrame (m : Machine) : Comes m m.endFrame := by
  unfold endFrame
  split
  · exact .stops ⟨rfl, rfl, rfl, rfl, rfl⟩ rfl rfl
  · next f frames _ =>
    split
    · exact .completes ⟨rfl, rfl, rfl, rfl, rfl⟩ rfl
    · exact .goes ⟨rfl, rfl, rfl, rfl, rfl⟩ rfl
    · exact .yields ⟨rfl, rfl, rfl, rfl, rfl⟩ rfl
    · exact .goes ⟨rfl, rfl, rfl, rfl, rfl⟩ rfl
    · obtain ⟨calls, location, he⟩ := returnToCaller_eq { m.truncate f.base with frames }
      rw [he]
      exact .goes ⟨rfl, rfl, rfl, rfl, rfl⟩ rfl

theorem comes_continueLoop (m : Machine) : Comes m m.continueLoop := by
  obtain ⟨locals, heap, frames, he⟩ := leaveBranches_eq m m.frames
  unfold continueLoop
  rw [he]
  dsimp only
  split
  · exact (comes_endFrame _).after ⟨rfl, rfl, rfl, rfl, rfl⟩ rfl rfl rfl
  · exact .stops ⟨rfl, rfl, rfl, rfl, rfl⟩ rfl rfl

theorem comes_breakLoop (m : Machine) : Comes m m.breakLoop := by
  obtain ⟨locals, heap, frames, he⟩ := leaveBranches_eq m m.frames
  unfold breakLoop
  rw [he]
  dsimp only
  split
  · split
    · exact .goes ⟨rfl, rfl, rfl, rfl, rfl⟩ rfl
    · exact .stops ⟨rfl, rfl, rfl, rfl, rfl⟩ rfl rfl
  · exact .stops ⟨rfl, rfl, rfl, rfl, rfl⟩ rfl rfl

theorem comes_giveBack (m : Machine) : Comes m m.giveBack := by
  unfold giveBack
  split
  · exact .stops ⟨rfl, rfl, rfl, rfl, rfl⟩ rfl rfl
  · next v rest _ =>
    obtain ⟨locals, heap, frames, he⟩ := leaveFunction_eq { m with operands := rest } m.frames
    split
    · next m' hm =>
      rw [hm] at he
      obtain rfl : m' = _ := he
      obtain ⟨calls, location, hr⟩ := returnToCaller_eq { m with operands := rest, locals, heap, frames }
      rw [hr]
      exact .goes ⟨rfl, rfl, rfl, rfl, rfl⟩ rfl
    · next m' hm =>
      rw [hm] at he
      obtain rfl : m' = _ := he
      exact .stops ⟨rfl, rfl, rfl, rfl, rfl⟩ rfl rfl

/-- So is every instruction that does not call the host. -/
theorem comes_exec (m : Machine) {op : Op} (h : ∀ id, op ≠ .callBuiltin id) : Comes m (m.exec op) := by
  cases op with
  | callBuiltin id => exact absurd rfl (h id)
  | continueLoop => exact comes_continueLoop m
  | breakLoop => exact comes_breakLoop m
  | giveBack => exact comes_giveBack m
  | line | loop | tick => exact .goes ⟨rfl, rfl, rfl, rfl, rfl⟩ rfl
  | file | branch | call =>
    simp only [exec, branch, call]
    repeat' split
    all_goals first
      | exact .goes ⟨rfl, rfl, rfl, rfl, rfl⟩ rfl
      | exact .stops ⟨rfl, rfl, rfl, rfl, rfl⟩ rfl rfl
  | _ => exact (works_exec m rfl).comes

/-! ## What is next -/

section Next

variable {f : Frame} {frames : List Frame} {op : Op} {rest : List Op}

/-- At the end of its code a frame ends. -/
theorem execNext_of_nil (hm : m.frames = f :: frames) (hr : f.rest = []) : m.execNext = m.endFrame := by
  unfold execNext
  simp only [hm, hr]

/-- Otherwise the next instruction is taken off the code and run. -/
theorem execNext_of_cons (hm : m.frames = f :: frames) (hr : f.rest = op :: rest) :
    m.execNext = ({ m with frames := { f with rest } :: frames } : Machine).exec op := by
  unfold execNext
  simp only [hm, hr]

end Next

/-- What is next for a machine. -/
inductive NextCase (m : Machine) : Prop where
  | nothing (top : m.frames = []) (next : m.execNext = m.stop .malformedProgram)
  | leaves (f : Frame) (frames : List Frame) (top : m.frames = f :: frames) (done : f.rest = [])
      (next : m.execNext = m.endFrame)
  | runs (f : Frame) (frames : List Frame) (op : Op) (rest : List Op) (top : m.frames = f :: frames)
      (ahead : f.rest = op :: rest)
      (next : m.execNext = ({ m with frames := { f with rest } :: frames } : Machine).exec op)

/-- A machine is at the end of a frame, or at an instruction of one of the kinds. -/
theorem nextCase (m : Machine) : m.NextCase := by
  cases hm : m.frames with
  | nil =>
    refine .nothing hm ?_
    unfold execNext
    rw [hm]
  | cons f frames =>
    cases hr : f.rest with
    | nil => exact .leaves f frames hm hr (execNext_of_nil hm hr)
    | cons op rest => exact .runs f frames op rest hm hr (execNext_of_cons hm hr)

/-- The machine waits for the answer to a call of the host. It has taken the arguments, and has spent what
the call costs beyond the step. -/
inductive Asks (m : Machine) : Machine × Status → Prop
  | intro {f : Frame} {frames : List Frame} {rest : List Op} {id : UInt32} {b : Signature UInt32}
      {args operands : List Value} (top : m.frames = f :: frames)
      (ahead : f.rest = .callBuiltin id :: rest)
      (declared : m.image.program.builtins[id.toNat]? = some b)
      (taken : takeOperands b.arity.toNat m.operands = some (args, operands)) :
      Asks m ({ m with
        frames := { f with rest } :: frames, operands, spent := m.spent + (b.cost.toNat - 1),
        phase := .awaiting }, .request id args)

/-- Running what is next comes to something, or asks the host. -/
theorem comes_or_asks (m : Machine) : Comes m m.execNext ∨ Asks m m.execNext := by
  cases m.nextCase with
  | nothing _ hx => exact .inl (hx ▸ .stops ⟨rfl, rfl, rfl, rfl, rfl⟩ rfl rfl)
  | leaves _ _ _ _ hx => exact .inl (hx ▸ comes_endFrame m)
  | runs f frames op rest hm hr hx =>
    rw [hx]
    by_cases ho : ∃ id, op = .callBuiltin id
    · obtain ⟨id, rfl⟩ := ho
      simp only [exec, callBuiltin]
      split
      · exact .inl (.stops ⟨rfl, rfl, rfl, rfl, rfl⟩ rfl rfl)
      · next b hb =>
        split
        · exact .inl (.stops ⟨rfl, rfl, rfl, rfl, rfl⟩ rfl rfl)
        · next ht => exact .inr (.intro hm hr hb ht)
    · left
      exact (comes_exec _ fun id he => ho ⟨id, he⟩).after ⟨rfl, rfl, rfl, rfl, rfl⟩ rfl rfl rfl

/-- What runs next changes no limit. -/
theorem limits_execNext (m : Machine) : m.execNext.1.limits = m.limits := by
  rcases m.comes_or_asks with h | h
  · exact h.alike.limits
  · generalize m.execNext = result at h
    cases h
    rfl

/-- What runs next never gives back any of what was spent. -/
theorem spent_le_execNext (m : Machine) : m.spent ≤ m.execNext.1.spent := by
  rcases m.comes_or_asks with h | h
  · exact Nat.le_of_eq h.alike.spent.symm
  · generalize m.execNext = result at h
    cases h
    exact Nat.le_add_right _ _

end Machine

end TickScript
