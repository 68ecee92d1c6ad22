import TickScript.Proofs.Machine.Halting
import TickScript.Proofs.Tick.Suspension

/-!
# What a host reports of a program

A host learns of a program from the reports of its turns only. Nothing that happens is missing from them,
and nothing is in them twice (`events_reported_once`):

* a machine remembers how its program ended, and the outcome of a turn is what the machine remembers
  (`Unfolds.phase_eq`), whether the end came in a step, in a function of the host or in the handing over
  of its result;
* the log of a machine is written by the functions of the host only, so the lines of a turn are those
  that the functions it called have added, one call after the other (`Unfolds.log_eq`);
* a machine that has stopped for good makes no step, and the report of its failure is given to the owner
  in the turn of the failure.

The functions of the host may look at all of the machine, but change only its heap, and add to its log
(`Service.OnlyLogs`).
-/

namespace TickScript

variable {κ : Type}

/-- The phase of a machine whose turn has ended so. -/
def Outcome.phase : Outcome → Phase
  | .yielded | .suspended => .running
  | .completed => .complete
  | .faulted f => .faulted f

/-- The failure that ended the turn. -/
def Outcome.fault? : Outcome → Option Fault
  | .faulted f => some f
  | _ => none

/-- An outcome that is not reported yet is reported by its fault. -/
theorem Outcome.report_false (o : Outcome) : o.report false = o.fault?.elim [] Fault.report := by
  cases o <;> rfl

theorem Outcome.eq_of_fault? {o : Outcome} {f : Fault} (h : o.fault? = some f) : o = .faulted f := by
  cases o <;> cases h
  rfl

/-! ## The end of a program -/

namespace Machine

/-- A machine with a fault is in the phase of that fault. -/
theorem phase_of_fault? {m : Machine} {f : Fault} (h : m.fault? = some f) : m.phase = .faulted f := by
  unfold fault? at h
  split at h
  · next hp =>
    cases h
    exact hp
  · exact nomatch h

/-- The phase that an outcome leaves has the fault of the outcome. -/
theorem fault?_of_phase {m : Machine} {o : Outcome} (h : m.phase = o.phase) : m.fault? = o.fault? := by
  unfold fault?
  rw [h]
  cases o <;> rfl

/-- A machine is complete when its outcome is completion. -/
theorem isComplete_of_phase {m : Machine} {o : Outcome} (h : m.phase = o.phase) :
    m.isComplete = true ↔ o = .completed := by
  unfold isComplete
  rw [h]
  cases o <;> simp [Outcome.phase]

/-- What an instruction says of the end of the program is what the machine remembers of it. -/
structure Remembers (result : Machine × Status) : Prop where
  complete : result.2 = .complete → result.1.phase = .complete
  fault : ∀ f, result.2 = .fault f → result.1.phase = .faulted f

/-- A machine that stops remembers why. -/
theorem Remembers.stop (m : Machine) (cause : Cause) : Remembers (m.stop cause) := by
  refine ⟨(fun h => nomatch h), fun f h => ?_⟩
  cases h
  rfl

theorem Comes.remembers {m : Machine} {result : Machine × Status} (h : Comes m result) :
    Remembers result := by
  cases h with
  | goes | yields => exact ⟨(fun h => nomatch h), fun _ h => nomatch h⟩
  | completes _ hp => exact ⟨fun _ => hp, fun _ h => nomatch h⟩
  | stops => exact .stop _ _

theorem Asks.remembers {m : Machine} {result : Machine × Status} (h : Asks m result) :
    Remembers result := by
  cases h
  exact ⟨(fun h => nomatch h), fun _ h => nomatch h⟩

/-- Every step that stops a machine is remembered by it. -/
theorem remembers_step (m : Machine) : Remembers m.step := by
  cases m.stepCase with
  | complete hp hs =>
    rw [hs]
    exact ⟨fun _ => hp, fun _ h => nomatch h⟩
  | faulted f hp hs =>
    rw [hs]
    refine ⟨(fun h => nomatch h), fun f' h => ?_⟩
    cases h
    exact hp
  | unpaid _ _ hs =>
    rw [hs]
    exact ⟨(fun h => nomatch h), fun _ h => nomatch h⟩
  | unanswered _ hs | overfull _ _ _ hs => exact hs ▸ .stop m _
  | made _ _ _ hs => exact hs ▸ (comes_or_asks _).elim Comes.remembers Asks.remembers

end Machine

/-! ## Hosts that only add to the log -/

/-- What the host does with the machine it serves is to change its heap and to add lines to its log. -/
def Service.OnlyLogs (s : Service κ) : Prop :=
  ∀ (m : Machine) (c : κ) (id : UInt32) (args : List Value), ∃ heap added,
    (s m c id args).2.1 = { m with heap, log := m.log ++ added }

/-- The lines that the host has added to the log for the step, if the step called it. -/
def Service.lines (s : Service κ) (e : Executed κ) : List String :=
  match e.status with
  | .request id args => (s e.stepped e.before id args).2.1.log.drop e.stepped.log.length
  | _ => []

/-- Builtins that keep the lines only log. -/
theorem Registry.onlyLogs_dispatch {r : Registry κ} (hr : ∀ b ∈ r.builtins, b.KeepsLines) :
    Service.OnlyLogs r.dispatch := by
  intro m c id args
  cases hb : r.meant? m.image id with
  | none =>
    refine ⟨m.heap.release args, [], ?_⟩
    unfold dispatch
    rw [hb, List.append_nil]
  | some b =>
    obtain ⟨added, hadded⟩ := hr b (mem_of_meant? hb) args m c
    refine ⟨(b.run args m c).heap.release args, added, ?_⟩
    rw [dispatch_of_meant hb, hadded]
    rfl

/-- A machine that was waiting, and whose call has ended the program, has failed for what the call came
to. -/
theorem Machine.phase_settle {m : Machine} {served : Except Fault Value} {f : Fault}
    (hm : m.phase = .awaiting) (h : (m.settle served).1 = .error f) :
    (m.settle served).2.phase = .faulted f := by
  cases served with
  | ok v =>
    rw [settle, pushResult_of_awaiting hm] at h
    cases h
  | error f' =>
    cases h
    simp only [settle, fault?, hm]
    rfl

namespace Service

variable {s : Service κ} {m m' : Machine} {c c' : κ} {id : UInt32} {args : List Value}

/-- A call that the host refuses has ended the program. -/
theorem phase_of_refused (hs : s.OnlyLogs) (hm : m.phase = .awaiting) {f : Fault}
    (h : s.answer m c id args = (.error f, m', c')) : m'.phase = .faulted f := by
  obtain ⟨heap, added, hserved⟩ := hs m c id args
  unfold answer at h
  generalize s m c id args = served at h hserved
  obtain ⟨result, n, context⟩ := served
  have hn : n.phase = .awaiting := by
    have hphase := congrArg Machine.phase hserved
    exact hphase.trans hm
  obtain ⟨hresult, hrest⟩ := Prod.mk.inj h
  obtain ⟨rfl, -⟩ := Prod.mk.inj hrest
  exact Machine.phase_settle hn hresult

/-- Answering a call adds the lines of the host. -/
theorem log_answer (hs : s.OnlyLogs) (e : Executed κ) (he : e.status = .request id args) :
    (s.answer e.stepped e.before id args).2.1.log = e.stepped.log ++ s.lines e := by
  obtain ⟨heap, added, hserved⟩ := hs e.stepped e.before id args
  have hlines : s.lines e = added := by
    unfold lines
    rw [he]
    dsimp only
    rw [hserved, List.drop_left]
  have hsettle := (s e.stepped e.before id args).2.1.log_settle (s e.stepped e.before id args).1
  rw [hlines]
  refine hsettle.trans ?_
  rw [hserved]

end Service

/-! ## One turn -/

/-- A step writes no line itself. -/
theorem Machine.log_step {m m' : Machine} {status : Status} (h : m.step = (m', status)) :
    m'.log = m.log := by
  by_cases hs : status = .budgetSpent
  · subst hs
    rw [step_of_refused (refused_of_step h)] at h
    cases h
    rfl
  · obtain ⟨-, -, -, hlog, -⟩ := fresh_step h hs
    exact hlog

namespace Unfolds

variable {s : Service κ} {m m' : Machine} {c c' : κ} {steps : List (Executed κ)} {outcome : Outcome}

/-- A turn leaves the machine in the phase that its outcome tells of. -/
theorem phase_eq (hs : s.OnlyLogs) (h : Unfolds s.answer m c steps outcome m' c') :
    m'.phase = outcome.phase := by
  induction h with
  | goes _ _ ih | answered _ _ _ ih => exact ih
  | refused step reply => exact Service.phase_of_refused hs (Machine.awaiting_step step) reply
  | @ends m m' c status outcome step last =>
    have hremembers := Machine.remembers_step m
    rw [step] at hremembers
    cases status with
    | running | request => exact nomatch last
    | yielded =>
      cases last
      exact Machine.running_step step (.inr rfl)
    | budgetSpent =>
      cases last
      have hrefused := Machine.refused_of_step step
      rw [Machine.step_of_refused hrefused] at step
      cases step
      exact hrefused.1
    | complete =>
      cases last
      exact hremembers.complete rfl
    | fault f =>
      cases last
      exact hremembers.fault f rfl

/-- A turn adds the lines of the calls that it makes. -/
theorem log_eq (hs : s.OnlyLogs) (h : Unfolds s.answer m c steps outcome m' c') :
    m'.log = m.log ++ steps.flatMap s.lines := by
  induction h with
  | goes step _ ih =>
    rw [ih, Machine.log_step step]
    rfl
  | @answered m m₁ m₂ m' c c₂ c' id args u steps outcome step reply _ ih =>
    have hlog := Service.log_answer hs ⟨m₁, .request id args, c, m₂, c₂⟩ rfl
    rw [reply] at hlog
    rw [ih, hlog, Machine.log_step step, List.flatMap_cons, List.append_assoc]
  | @refused m m₁ m' c c' id args f step reply =>
    have hlog := Service.log_answer hs ⟨m₁, .request id args, c, m', c'⟩ rfl
    rw [reply] at hlog
    rw [hlog, Machine.log_step step, List.flatMap_cons, List.flatMap_nil, List.append_nil]
  | @ends m m' c status outcome step last =>
    rw [Machine.log_step step, List.flatMap_cons, List.flatMap_nil, List.append_nil]
    cases status with
    | running | request => exact nomatch last
    | yielded | complete | budgetSpent | fault => exact (List.append_nil _).symm

/-- A machine that has stopped for good does nothing with its turn. -/
theorem of_stopped (hm : m.phase = outcome.phase) (ho : outcome.isRunning = false)
    {outcome' : Outcome} (h : Unfolds s.answer m c steps outcome' m' c') :
    outcome' = outcome ∧ m' = m ∧ ∀ e ∈ steps, e.status.isRequest = false := by
  obtain ⟨status, hstatus, hstep⟩ : ∃ status, Status.outcome? status = some outcome ∧
      m.step = (m, status) := by
    cases outcome with
    | yielded | suspended => exact nomatch ho
    | completed => exact ⟨.complete, rfl, Machine.step_of_final (by rw [hm]; rfl)⟩
    | faulted f => exact ⟨.fault f, rfl, Machine.step_of_final (by rw [hm]; rfl)⟩
  cases h with
  | goes step | answered step | refused step =>
    cases hstep.symm.trans step
    exact nomatch hstatus
  | ends step last =>
    cases hstep.symm.trans step
    refine ⟨Option.some.inj (last.symm.trans hstatus), rfl, ?_⟩
    intro e he
    rw [List.mem_singleton.1 he]
    cases status with
    | request => exact nomatch hstatus
    | _ => rfl

end Unfolds

/-! ## Turn after turn -/

namespace Turn

/-- The lines that the host has added to the log in the turn. -/
def printed (s : Service κ) (t : Turn κ) : List String := t.steps.flatMap s.lines

/-- The failure that the turn reports. -/
def fault? (t : Turn κ) : Option Fault := t.report.outcome.fault?

/-- The turn calls no function of the host. -/
def CallsNothing (t : Turn κ) : Prop := ∀ e ∈ t.steps, e.status.isRequest = false

end Turn

namespace Turns

variable {s : Service κ} {m : Machine} {c : κ} {ts : List (Turn κ)}

/-- After every turn the machine is in the phase of the reported outcome. -/
theorem phase_of_mem (hs : s.OnlyLogs) (h : Turns s.answer m c ts) :
    ∀ t ∈ ts, t.machine.phase = t.report.outcome.phase := by
  induction h with
  | done => exact fun t ht => nomatch ht
  | next turn rest ih =>
    intro t ht
    rcases List.mem_cons.1 ht with rfl | ht
    · exact (turn.phase_eq hs :)
    · exact ih t ht

/-- Nothing happens in the turns of a machine that has stopped for good. -/
theorem of_stopped (h : Turns s.answer m c ts) {o : Outcome} (hm : m.log = [])
    (hp : m.phase = o.phase) (ho : o.isRunning = false) :
    ∀ t ∈ ts, t.report = ⟨o, []⟩ ∧ t.CallsNothing := by
  induction h with
  | done => exact fun t ht => nomatch ht
  | @next m m' c c' steps outcome ts turn rest ih =>
    obtain ⟨houtcome, hmachine, hcalls⟩ := turn.of_stopped (m := m.startTick) hp ho
    have hlog : m'.log = [] := by
      rw [hmachine]
      exact hm
    have hphase : m'.phase = o.phase := by
      rw [hmachine]
      exact hp
    intro t ht
    rcases List.mem_cons.1 ht with rfl | ht
    · refine ⟨?_, hcalls⟩
      rw [houtcome, hlog, Machine.fault?_of_phase hp]
      cases o with
      | yielded | suspended => exact nomatch ho
      | completed | faulted => rfl
    · exact ih rfl hphase t ht

/-- After a turn that has ended the program nothing happens any more. -/
theorem stopped_after (hs : s.OnlyLogs) (h : Turns s.answer m c ts) {before after : List (Turn κ)}
    {t : Turn κ} (hts : ts = before ++ t :: after) (ht : t.report.outcome.isRunning = false) :
    ∀ t' ∈ after, t'.report = ⟨t.report.outcome, []⟩ ∧ t'.CallsNothing := by
  induction h generalizing before with
  | done => exact absurd hts (by simp)
  | next turn rest ih =>
    cases before with
    | nil =>
      obtain ⟨rfl, rfl⟩ := List.cons.inj hts
      exact rest.of_stopped rfl (turn.phase_eq hs :) ht
    | cons first before => exact ih (List.cons.inj hts).2

/-- What a turn reports beside its outcome: a failure is told of if none was told of before. -/
theorem lines_eq (hs : s.OnlyLogs) (h : Turns s.answer m c ts) (hm : m.log = [])
    {before after : List (Turn κ)} {t : Turn κ} (hts : ts = before ++ t :: after) :
    t.report.lines = t.printed s ++
      t.report.outcome.report (m.fault?.isSome || before.any (·.fault?.isSome)) := by
  induction h generalizing before with
  | done => exact absurd hts (by simp)
  | @next m m' c c' steps outcome ts turn rest ih =>
    cases before with
    | nil =>
      obtain ⟨rfl, -⟩ := List.cons.inj hts
      have hlog : m.startTick.log = [] := hm
      rw [List.any_nil, Bool.or_false, turn.log_eq hs, hlog]
      rfl
    | cons first before =>
      obtain ⟨rfl, hrest⟩ := List.cons.inj hts
      have hfault : ({ m' with log := [] } : Machine).fault? = outcome.fault? :=
        Machine.fault?_of_phase (turn.phase_eq hs :)
      rw [ih rfl hrest, hfault, List.any_cons, ← Bool.or_assoc]
      congr 3
      -- A machine that had failed before the first turn fails in it again.
      cases hf : m.fault? with
      | none => rfl
      | some f =>
        have hphase : m.startTick.phase = Outcome.phase (.faulted f) := Machine.phase_of_fault? hf
        obtain ⟨rfl, -, -⟩ := turn.of_stopped hphase rfl
        rfl

/-- The lines of all turns: what was printed, and the report of the failure once. -/
theorem flatMap_lines (hs : s.OnlyLogs) (h : Turns s.answer m c ts) (hm : m.log = [])
    (hf : m.fault? = none) :
    ts.flatMap (·.report.lines) =
      ts.flatMap (·.printed s) ++ (ts.findSome? Turn.fault?).elim [] Fault.report := by
  induction h with
  | done => rfl
  | @next m m' c c' steps outcome ts turn rest ih =>
    have hlog : m.startTick.log = [] := hm
    have hlines : m'.log = steps.flatMap s.lines := by
      rw [turn.log_eq hs, hlog]
      rfl
    have hfault : ({ m' with log := [] } : Machine).fault? = outcome.fault? :=
      Machine.fault?_of_phase (turn.phase_eq hs :)
    rw [List.flatMap_cons, List.flatMap_cons, List.findSome?_cons, hlines, hf]
    dsimp only [Turn.printed, Turn.fault?]
    rw [Option.isSome_none, Outcome.report_false]
    cases ho : outcome.fault? with
    | none =>
      have hrest := ih rfl (hfault.trans ho)
      rw [Option.elim_none, List.append_nil, List.append_assoc]
      exact congrArg _ hrest
    | some f =>
      -- The program has failed in this turn, and nothing is added in the others.
      have hphase : ({ m' with log := [] } : Machine).phase = Outcome.phase (.faulted f) :=
        Machine.phase_of_fault? (hfault.trans ho)
      have hstopped := rest.of_stopped rfl hphase rfl
      have hreported : ts.flatMap (·.report.lines) = [] :=
        List.flatMap_eq_nil_iff.2 fun t ht => by rw [(hstopped t ht).1]
      have hprinted : ts.flatMap (·.steps.flatMap s.lines) = [] := by
        refine List.flatMap_eq_nil_iff.2 fun t ht => List.flatMap_eq_nil_iff.2 fun e he => ?_
        have hrequest := (hstopped t ht).2 e he
        unfold Service.lines
        cases hstatus : e.status with
        | request =>
          rw [hstatus] at hrequest
          exact nomatch hrequest
        | _ => rfl
      rw [hreported, hprinted, List.append_nil, List.append_nil]

end Turns

/-- Every event of turns in a row is reported once. -/
structure ReportedOnce (s : Service κ) (ts : List (Turn κ)) : Prop where
  faulted : ∀ t ∈ ts, ∀ f, t.report.outcome = .faulted f ↔ t.machine.fault? = some f
  completed : ∀ t ∈ ts, t.report.outcome = .completed ↔ t.machine.isComplete = true
  stopped : ∀ before t after, ts = before ++ t :: after → t.report.outcome.isRunning = false →
    ∀ t' ∈ after, t'.report = ⟨t.report.outcome, []⟩ ∧ t'.CallsNothing
  lines : ∀ before t after, ts = before ++ t :: after →
    t.report.lines = t.printed s ++ t.report.outcome.report (before.any (·.fault?.isSome))
  all : ts.flatMap (·.report.lines) =
    ts.flatMap (·.printed s) ++ (ts.findSome? Turn.fault?).elim [] Fault.report

/-- **Every event is reported once.** A program is loaded and given any number of turns, by a host that
changes only its heap and adds to its log. After each turn the outcome says that the program has failed
exactly if the machine has, and for the same reason, and that it is complete exactly if the machine is. Once
a turn has ended the program, every later turn reports the same outcome without lines and calls no function
of the host. The lines of a turn are those that the functions it called have added; the report of a failure
follows them in the first turn that fails. Put together, the lines of all turns are those that functions of
the host have added, and after them the report of the failure, if there was one. The functions of a registry
change nothing but heap and log, so of them only the second is asked. -/
theorem events_reported_once {bytes : List UInt8} {limits : Limits} {m : Machine}
    (hm : Machine.load bytes limits = .ok m) (c : κ) :
    (∀ s : Service κ, s.OnlyLogs → ∀ ts, Turns s.answer m c ts → ReportedOnce s ts) ∧
    ∀ r : Registry κ, (∀ b ∈ r.builtins, b.KeepsLines) → ∀ n,
      (r.turns n m c).map (·.report) = r.reports n m c ∧ ReportedOnce r.dispatch (r.turns n m c) := by
  obtain ⟨image, shapes, -, -, rfl⟩ := Machine.load_eq_ok.1 hm
  have hserved (s : Service κ) (hs : s.OnlyLogs) (ts : List (Turn κ))
      (h : Turns s.answer (.start image shapes limits) c ts) : ReportedOnce s ts := by
    refine ⟨fun t ht f => ?_, fun t ht => ?_, fun before t after => h.stopped_after hs,
      fun before t after => h.lines_eq hs rfl, h.flatMap_lines hs rfl rfl⟩
    · rw [Machine.fault?_of_phase (h.phase_of_mem hs t ht)]
      constructor
      · intro ho
        rw [ho]
        rfl
      · exact Outcome.eq_of_fault?
    · exact (Machine.isComplete_of_phase (h.phase_of_mem hs t ht)).symm
  exact ⟨hserved, fun r hr n => ⟨r.map_report_turns n _ c,
    hserved r.dispatch (Registry.onlyLogs_dispatch hr) _ (r.turns_answer n _ c)⟩⟩

/-- A program that prints a number and then divides by zero, given three turns. -/
theorem events_reported_once_division :
    ∃ m, Machine.load (Image.link ⟨(⟨[.print]⟩ : Registry Unit).signatures, [], [],
        [.pushInt 7, .callBuiltin 0, .discard, .pushInt 1, .pushInt 0, .binary .div]⟩).encode .least =
          .ok m ∧
      ((⟨[.print]⟩ : Registry Unit).turns 3 m ()).flatMap (·.report.lines) =
        "7" :: (m.faultOf .divisionByZero none).report := by
  have hshapes : (Image.link ⟨(⟨[.print]⟩ : Registry Unit).signatures, [], [],
      [.pushInt 7, .callBuiltin 0, .discard, .pushInt 1, .pushInt 0, .binary .div]⟩).Resolves [] := rfl
  have hload := Machine.load_link (.of_length_encode (by decide +kernel)) hshapes .least
  have hr : ∀ b ∈ (⟨[.print]⟩ : Registry Unit).builtins, b.KeepsLines := by
    intro b hb
    rw [List.mem_singleton.1 hb]
    exact Builtin.discreet_print.addsLines.keepsLines
  refine ⟨_, hload, ?_⟩
  rw [((events_reported_once hload ()).2 _ hr 3).2.all]
  cbv

end TickScript
