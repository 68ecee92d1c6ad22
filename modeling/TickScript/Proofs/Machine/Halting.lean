import TickScript.Proofs.Machine.Control

/-!
# Machines that have stopped for good

A machine whose program has ended or failed never runs again: whatever its host does, its operands,
variables, frames and calls stay as they are, and every later step and batch of steps comes to what the
machine stopped with (`Phase.final?`).

What it stopped with stays too, as long as its host answers no call. A machine that waits for no answer
fails when it is given one, and this holds of a machine that has stopped as well: the report that no call
was pending takes the place of the end, or of the failure before it (`exists_fault_replaced`).
-/

namespace TickScript

/-- What every step of a machine comes to that has stopped for good. -/
def Phase.final? : Phase → Option Status
  | .running | .awaiting => none
  | .complete => some .complete
  | .faulted f => some (.fault f)

namespace Machine

/-- Whether a host answers a call. -/
def Deed.isAnswer : Deed → Bool
  | .pushResult _ => true
  | _ => false

/-- All that a program has built up: its stacks, its variables and its place. -/
structure Standstill (m m' : Machine) : Prop where
  operands : m'.operands = m.operands
  locals : m'.locals = m.locals
  globals : m'.globals = m.globals
  frames : m'.frames = m.frames
  calls : m'.calls = m.calls
  location : m'.location = m.location

/-- What stands still twice stands still. -/
theorem Standstill.trans {a b c : Machine} (h : Standstill a b) (h' : Standstill b c) :
    Standstill a c where
  operands := h'.operands.trans h.operands
  locals := h'.locals.trans h.locals
  globals := h'.globals.trans h.globals
  frames := h'.frames.trans h.frames
  calls := h'.calls.trans h.calls
  location := h'.location.trans h.location

/-- The report of an answer that nobody waits for depends on the place and the calls only. -/
theorem Standstill.faultOf_eq {m m' : Machine} (h : Standstill m m') (cause : Cause)
    (detail : Option String) : m'.faultOf cause detail = m.faultOf cause detail := by
  unfold faultOf
  rw [h.location, h.calls]

/-- A machine that has come to its end does not step. -/
theorem step_of_final {m : Machine} {status : Status} (h : m.phase.final? = some status) :
    m.step = (m, status) := by
  cases m.stepCase with
  | complete hp hs | faulted _ hp hs =>
    rw [hp] at h
    cases h
    exact hs
  | unanswered hp | unpaid hp | overfull hp | made hp =>
    rw [hp] at h
    exact nomatch h

/-- Nor does it make a batch of steps. -/
theorem stepBatch_of_final {m : Machine} {status : Status} (h : m.phase.final? = some status) :
    m.stepBatch = (m, status) := by
  have hrun : status ≠ .running := by
    rintro rfl
    cases hp : m.phase <;> rw [hp] at h <;> exact nomatch h
  rw [stepBatch]
  split
  · next m' hs =>
    rw [step_of_final h] at hs
    cases hs
    exact absurd rfl hrun
  · exact step_of_final h

/-- The phase of a stopped machine after a deed. -/
def afterwards (m : Machine) (answered : Bool) : Phase :=
  if answered then .faulted (m.faultOf .noCallPending none) else m.phase

/-- Whatever a host does to a stopped machine, the machine stays stopped and keeps what it has built up. -/
theorem perform_of_final {m : Machine} {status : Status} (h : m.phase.final? = some status) (d : Deed) :
    Standstill m (m.perform d) ∧ (m.perform d).phase = m.afterwards d.isAnswer := by
  cases d with
  | startTick => exact ⟨⟨rfl, rfl, rfl, rfl, rfl, rfl⟩, rfl⟩
  | step =>
    rw [perform, step_of_final h]
    exact ⟨⟨rfl, rfl, rfl, rfl, rfl, rfl⟩, rfl⟩
  | stepBatch =>
    rw [perform, stepBatch_of_final h]
    exact ⟨⟨rfl, rfl, rfl, rfl, rfl, rfl⟩, rfl⟩
  | pushResult v =>
    obtain ⟨hp, -⟩ | ⟨-, hanswer⟩ := m.pushResult_cases v
    · rw [hp] at h
      cases h
    · rw [perform, hanswer]
      exact ⟨⟨rfl, rfl, rfl, rfl, rfl, rfl⟩, rfl⟩
  | touch heap log => exact ⟨⟨rfl, rfl, rfl, rfl, rfl, rfl⟩, rfl⟩

/-- A machine that has come to its end has an end afterwards, though it may be another one. -/
theorem final_afterwards {m : Machine} {status : Status} (h : m.phase.final? = some status)
    (answered : Bool) : ∃ status', (m.afterwards answered).final? = some status' := by
  cases answered with
  | true => exact ⟨_, rfl⟩
  | false => exact ⟨status, h⟩

/-- What a host has done to a stopped machine, put together: it matters only whether a call was answered. -/
theorem after_of_final {m : Machine} {status : Status} (h : m.phase.final? = some status)
    (deeds : List Deed) :
    Standstill m (m.after deeds) ∧ (m.after deeds).phase = m.afterwards (deeds.any Deed.isAnswer) := by
  induction deeds generalizing m status with
  | nil => exact ⟨⟨rfl, rfl, rfl, rfl, rfl, rfl⟩, rfl⟩
  | cons d deeds ih =>
    obtain ⟨hstill, hphase⟩ := perform_of_final h d
    obtain ⟨status', hfinal⟩ := final_afterwards h d.isAnswer
    obtain ⟨hstill', hphase'⟩ := ih (hphase ▸ hfinal)
    refine ⟨hstill.trans hstill', hphase'.trans ?_⟩
    rw [List.any_cons, afterwards, hphase, hstill.faultOf_eq]
    cases d.isAnswer <;> cases deeds.any Deed.isAnswer <;> rfl

/-- **A machine that has stopped stays stopped.** Whatever a host does afterwards, in whatever order:
operands, locals, globals, frames and calls never change again, the machine never runs again, and each
later step and batch of steps comes to what it has stopped with. This is what it stopped with first,
unless the host has answered a call since; then it is the report that no call was pending. -/
theorem stopped_for_good {m m' : Machine} {status : Status} (deeds : List Deed)
    (hm : m.phase.final? = some status) (hm' : m.after deeds = m') :
    (m'.operands = m.operands ∧ m'.locals = m.locals ∧ m'.globals = m.globals ∧
      m'.frames = m.frames ∧ m'.calls = m.calls) ∧
    ((∀ d ∈ deeds, d.isAnswer = false) → m'.fault? = m.fault? ∧ m'.isComplete = m.isComplete ∧
      m'.step.2 = status ∧ m'.stepBatch.2 = status) ∧
    ((∃ d ∈ deeds, d.isAnswer = true) → m'.fault? = some (m.faultOf .noCallPending none) ∧
      m'.step.2 = .fault (m.faultOf .noCallPending none) ∧
      m'.stepBatch.2 = .fault (m.faultOf .noCallPending none)) := by
  -- Answering is the only deed that a machine at rest reacts to.
  obtain ⟨hstill, hphase⟩ := after_of_final hm deeds
  rw [hm'] at hstill hphase
  refine ⟨⟨hstill.operands, hstill.locals, hstill.globals, hstill.frames, hstill.calls⟩, ?_, ?_⟩
  · intro hnone
    have hany : deeds.any Deed.isAnswer = false := by
      rw [List.any_eq_false]
      exact fun d hd => by rw [hnone d hd]; decide
    have hp : m'.phase = m.phase := by rw [hphase, hany]; rfl
    have hfinal : m'.phase.final? = some status := hp ▸ hm
    refine ⟨?_, ?_, ?_, ?_⟩
    · unfold fault?
      rw [hp]
    · unfold isComplete
      rw [hp]
    · rw [step_of_final hfinal]
    · rw [stepBatch_of_final hfinal]
  · intro hsome
    have hany : deeds.any Deed.isAnswer = true := List.any_eq_true.2 hsome
    have hp : m'.phase = .faulted (m.faultOf .noCallPending none) := by rw [hphase, hany]; rfl
    have hfinal : m'.phase.final? = some (.fault (m.faultOf .noCallPending none)) := by rw [hp]; rfl
    refine ⟨?_, ?_, ?_⟩
    · unfold fault?
      rw [hp]
    · rw [step_of_final hfinal]
    · rw [stepBatch_of_final hfinal]

/-- A program that has divided by zero, given a new tick, a line for its log, and two batches. -/
theorem stopped_for_good_division :
    ∃ m, load (Image.link ⟨[], [], [], [.pushInt 1, .pushInt 0, .binary .div]⟩).encode .least = .ok m ∧
      m.stepBatch.1.fault? = some (m.faultOf .divisionByZero none) ∧
      (m.stepBatch.1.after [.startTick, .stepBatch, .touch m.heap ["again"], .stepBatch]).fault? =
        some (m.faultOf .divisionByZero none) := by
  have hload : load (Image.link ⟨[], [], [], [.pushInt 1, .pushInt 0, .binary .div]⟩).encode .least =
      .ok (.start (Image.link ⟨[], [], [], [.pushInt 1, .pushInt 0, .binary .div]⟩) [] .least) := by
    unfold load
    rw [Image.decode_encode (Image.fits_of_length_encode (by decide +kernel))]
    rfl
  have hfault : (start (Image.link ⟨[], [], [], [.pushInt 1, .pushInt 0, .binary .div]⟩) []
      .least).stepBatch.1.phase = .faulted ⟨.divisionByZero, ⟨0, Location.noFile⟩, none, []⟩ := by cbv
  refine ⟨_, hload, ?_, ?_⟩
  · unfold fault?
    rw [hfault]
    rfl
  · have hkept := (stopped_for_good [.startTick, .stepBatch, .touch .empty ["again"], .stepBatch]
      (by rw [hfault]; rfl) rfl).2.1 (by decide)
    refine hkept.1.trans ?_
    unfold fault?
    rw [hfault]
    rfl

/-- An answer that nobody waits for replaces the failure of a program that has divided by zero, and makes
a program that has ended a failed one. -/
theorem exists_fault_replaced :
    (∃ m, load (Image.link ⟨[], [], [], [.pushInt 1, .pushInt 0, .binary .div]⟩).encode .least = .ok m ∧
      (m.after [.stepBatch]).fault? = some (m.faultOf .divisionByZero none) ∧
      (m.after [.stepBatch, .pushResult .null]).fault? = some (m.faultOf .noCallPending none)) ∧
    ∃ m, load (Image.link ⟨[], [], [], []⟩).encode .least = .ok m ∧
      (m.after [.stepBatch]).isComplete = true ∧
      (m.after [.stepBatch, .pushResult .null]).isComplete = false := by
  refine ⟨⟨.start (Image.link ⟨[], [], [], [.pushInt 1, .pushInt 0, .binary .div]⟩) [] .least, ?_,
    by cbv, by cbv⟩, ⟨.start (Image.link ⟨[], [], [], []⟩) [] .least, ?_, by cbv, by cbv⟩⟩
  · unfold load
    rw [Image.decode_encode (Image.fits_of_length_encode (by decide +kernel))]
    rfl
  · unfold load
    rw [Image.decode_encode (Image.fits_of_length_encode (by decide +kernel))]
    rfl

end Machine

end TickScript
