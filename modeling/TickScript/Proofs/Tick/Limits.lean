import TickScript.Proofs.Tick.Course
import TickScript.Proofs.Tick.Texts

/-!
# Limits that are not met

The limits of memory, calls and tuples are there to stop programs, and for nothing else. So a program that
none of them stops does the same under higher limits (`raised_limits_unnoticed`). A step compares at most
one limit with something, and either fails for it or goes on as it would have gone on under a higher one
(`Machine.persists_step`). The host must do likewise: it may look at the limits of the machine that it serves
only to refuse an array that is too big (`Service.SteadyFor`). The functions of the library do so, but for the
one that tells a program how much memory it may use.

The limit of instructions is another matter: it decides where a turn ends.
-/

namespace TickScript

variable {κ : Type}

/-- The second limits allow the same instructions a tick, and of all else at least as much as the first. -/
structure Limits.Raised (l l' : Limits) : Prop where
  instructions : l'.instructions = l.instructions
  memory : l.memory ≤ l'.memory
  callDepth : l.callDepth ≤ l'.callDepth
  tupleSize : l.tupleSize ≤ l'.tupleSize

theorem Limits.Raised.arraySize {l l' : Limits} (h : l.Raised l') : l.arraySize ≤ l'.arraySize :=
  Nat.div_le_div_right h.memory

/-- Whether a step failed because the program met a limit. -/
def Status.isLimit : Status → Bool
  | .fault f => f.cause.isLimit
  | _ => false

/-- Whether a turn ended because the program met a limit, other than that of instructions. -/
def Outcome.isLimit : Outcome → Bool
  | .faulted f => f.cause.isLimit
  | _ => false

/-- A turn ends at a limit when its last step does. -/
theorem Status.isLimit_of_outcome {status : Status} {outcome : Outcome}
    (h : status.outcome? = some outcome) : status.isLimit = outcome.isLimit := by
  cases status with
  | running | request => exact nomatch h
  | yielded | complete | budgetSpent | fault =>
    cases h
    rfl

/-! ## Steps -/

namespace Machine

/-- The machine under other limits. -/
def relimited (m : Machine) (limits : Limits) : Machine := { m with limits }

/-- What is done with the machine fails for a limit, or comes to the same under other limits. -/
def Persists (part : Machine → Machine × Status) (m : Machine) (limits : Limits) : Prop :=
  (part m).2.isLimit = false →
    part (m.relimited limits) = ((part m).1.relimited limits, (part m).2)

/-- What looks at no limit comes to the same under others. -/
theorem Blind.persists {part : Machine → Machine × Status} {m : Machine} {cost : Nat}
    (h : Blind part m cost) (limits : Limits) : Persists part m limits := by
  intro _
  have hafter : (part m).1.relimited limits = (part m).1.equipped limits (m.spent + cost) m.log := by
    rw [h.eq_equipped]
    rfl
  rw [hafter]
  exact h limits m.spent m.log

section Parts

variable {m : Machine} {limits : Limits}

/-- Making a tuple does the same under raised limits unless a limit stops it. -/
theorem persists_makeTuple (h : m.limits.Raised limits) (n : Nat) :
    Persists (makeTuple · n) m limits := by
  intro hmet
  change (m.makeTuple n).2.isLimit = false at hmet
  show (m.relimited limits).makeTuple n = ((m.makeTuple n).1.relimited limits, (m.makeTuple n).2)
  have ho : (m.relimited limits).operands = m.operands := rfl
  unfold makeTuple at hmet ⊢
  rw [ho]
  rcases ht : takeOperands n m.operands with _ | ⟨items, rest⟩
  · rfl
  · rw [ht] at hmet
    by_cases hs : m.limits.tupleSize < (m.heap.tuple items).1.flatSize
    · simp only [if_pos hs] at hmet
      exact nomatch hmet
    · have hs' : ¬ limits.tupleSize < (m.heap.tuple items).1.flatSize :=
        fun hlt => hs (Nat.lt_of_le_of_lt h.tupleSize hlt)
      have hl : (m.relimited limits).limits = limits := rfl
      have hh : (m.relimited limits).heap = m.heap := rfl
      simp only [hl, hh, if_neg hs, if_neg hs']
      rfl

/-- Making an array does the same under raised limits unless a limit stops it. -/
theorem persists_makeArray (h : m.limits.Raised limits) (n : Nat) :
    Persists (makeArray · n) m limits := by
  intro hmet
  change (m.makeArray n).2.isLimit = false at hmet
  show (m.relimited limits).makeArray n = ((m.makeArray n).1.relimited limits, (m.makeArray n).2)
  have hl : (m.relimited limits).limits = limits := rfl
  have ho : (m.relimited limits).operands = m.operands := rfl
  unfold makeArray at hmet ⊢
  by_cases hs : m.limits.arraySize < n
  · rw [if_pos hs] at hmet
    exact nomatch hmet
  · have hs' : ¬ limits.arraySize < n := fun hlt => hs (Nat.lt_of_le_of_lt h.arraySize hlt)
    rw [hl, ho, if_neg hs, if_neg hs']
    rcases takeOperands n m.operands with _ | ⟨items, rest⟩ <;> rfl

/-- A call does the same under raised limits unless a limit stops it. -/
theorem persists_call (h : m.limits.Raised limits) (id : UInt32) : Persists (call · id) m limits := by
  intro hmet
  change (m.call id).2.isLimit = false at hmet
  show (m.relimited limits).call id = ((m.call id).1.relimited limits, (m.call id).2)
  have hl : (m.relimited limits).limits = limits := rfl
  have hi : (m.relimited limits).image = m.image := rfl
  have hc : (m.relimited limits).calls = m.calls := rfl
  unfold call at hmet ⊢
  rw [hl, hi, hc]
  rcases hf : m.image.program.functions[id.toNat]? with _ | f
  · rfl
  · rw [hf] at hmet
    dsimp only at hmet ⊢
    rcases hn : m.image.text? f.name with _ | called
    · rfl
    · rw [hn] at hmet
      by_cases hd : m.limits.callDepth < m.calls.length + 1
      · simp only [if_pos hd] at hmet
        exact nomatch hmet
      · have hd' : ¬ limits.callDepth < m.calls.length + 1 :=
          fun hlt => hd (Nat.lt_of_le_of_lt h.callDepth hlt)
        simp only [if_neg hd, if_neg hd']
        rfl

/-- Every instruction does the same under raised limits unless a limit stops it. -/
theorem persists_exec (h : m.limits.Raised limits) (op : Op) : Persists (exec · op) m limits := by
  cases ho : op.isLimited with
  | false =>
    obtain ⟨cost, hblind⟩ := m.exists_blind_exec ho
    exact hblind.persists limits
  | true =>
    cases op with
    | makeTuple n => exact persists_makeTuple h n.toNat
    | makeArray n => exact persists_makeArray h n.toNat
    | call id => exact persists_call h id
    | _ => exact nomatch ho

/-- The next instruction does the same under raised limits unless a limit stops it. -/
theorem persists_execNext (h : m.limits.Raised limits) : Persists execNext m limits := by
  intro hmet
  have hf : (m.relimited limits).frames = m.frames := rfl
  have he := m.blind_endFrame.persists limits
  unfold execNext at hmet ⊢
  rw [hf]
  rcases hframes : m.frames with _ | ⟨f, frames⟩
  · rfl
  · rw [hframes] at hmet
    dsimp only at hmet ⊢
    rcases hrest : f.rest with _ | ⟨op, rest⟩
    · rw [hrest] at hmet
      exact he hmet
    · rw [hrest] at hmet
      exact persists_exec (m := { m with frames := { f with rest } :: frames }) h op hmet

/-- **A step fails for a limit, or comes to the same under higher limits.** -/
theorem persists_step (h : m.limits.Raised limits) : Persists step m limits := by
  intro hmet
  by_cases hp : m.phase = .running
  · have hi : (m.relimited limits).limits.instructions = m.limits.instructions := h.instructions
    by_cases hb : m.limits.instructions ≤ m.spent
    · have hb' : (m.relimited limits).limits.instructions ≤ (m.relimited limits).spent := hi ▸ hb
      rw [step_of_refused ⟨hp, hb⟩, step_of_refused (m := m.relimited limits) ⟨hp, hb'⟩]
    · have hb' : ¬ (m.relimited limits).limits.instructions ≤ (m.relimited limits).spent := hi ▸ hb
      rw [step_of_running hp hb] at hmet ⊢
      rw [step_of_running (m := m.relimited limits) hp hb']
      by_cases hu : m.limits.memory < m.usedMemory
      · rw [if_pos hu] at hmet
        exact nomatch hmet
      · have hu' : ¬ (m.relimited limits).limits.memory < (m.relimited limits).usedMemory :=
          fun hlt => hu (Nat.lt_of_le_of_lt h.memory hlt)
        rw [if_neg hu] at hmet ⊢
        rw [if_neg hu']
        exact persists_execNext (m := { m with spent := m.spent + 1 }) h hmet
  · have hphase : (m.relimited limits).phase = m.phase := rfl
    unfold step
    rw [hphase]
    cases hm : m.phase with
    | running => exact absurd hm hp
    | complete | faulted | awaiting => rfl

end Parts

end Machine

/-! ## Functions of the host -/

namespace Builtin

/-- The function looks at the limits only to refuse an array that is too big: where it does not refuse one, it
does the same under higher limits. -/
def Steady (b : Builtin κ) : Prop :=
  ∀ (args : List Value) (m : Machine) (c : κ) (limits : Limits), m.limits.Raised limits →
    (∃ f, (b.run args m c).result = .error f ∧ f.cause = .arrayTooBig) ∨
      b.run args (m.relimited limits) c = b.run args m c

/-- A function that changes nothing is steady if its results do not depend on the limits. -/
theorem steady_ofResult {called : String} {arity cost : UInt32}
    {result : Machine → List Value → Except Fault Value}
    (h : ∀ m limits args, result (m.relimited limits) args = result m args) :
    (ofResult called arity cost result : Builtin κ).Steady := by
  intro args m c limits _
  refine .inr ?_
  simp only [ofResult, h m limits args]
  rfl

theorem steady_print : (print : Builtin κ).Steady := by
  intro args m c limits _
  refine .inr ?_
  unfold print
  dsimp only
  split <;> rfl

theorem steady_string : (string : Builtin κ).Steady := by
  intro args m c limits _
  refine .inr ?_
  unfold string
  dsimp only
  split <;> rfl

theorem steady_concat : (concat : Builtin κ).Steady := by
  intro args m c limits _
  refine .inr ?_
  unfold concat
  dsimp only
  split
  · split <;> rfl
  · rfl

/-- The builtins of the standard module do not depend on the limits. -/
theorem steady_standard {b : Builtin κ} (h : b ∈ (Module.standard : Module κ).builtins) : b.Steady := by
  simp only [Module.standard, List.mem_cons, List.not_mem_nil, or_false] at h
  rcases h with rfl | rfl | rfl | rfl | rfl | rfl | rfl | rfl | rfl
  · exact steady_print
  · exact steady_ofResult fun _ _ _ => rfl
  · exact steady_string
  · exact steady_concat
  · exact steady_ofResult fun _ _ _ => rfl
  · exact steady_ofResult fun _ _ _ => rfl
  · exact steady_ofResult fun _ _ _ => rfl
  · exact steady_ofResult fun _ _ _ => rfl
  · exact steady_ofResult fun _ _ _ => rfl

theorem steady_push : (push : Builtin κ).Steady := by
  intro args m c limits hraised
  have hsize := hraised.arraySize
  have hlimits : (m.relimited limits).limits = limits := rfl
  have hheap : (m.relimited limits).heap = m.heap := rfl
  unfold push
  dsimp only
  split
  · next r v =>
    rw [hlimits, hheap]
    by_cases hfull : m.limits.arraySize ≤ (m.heap.items r).length
    · rw [if_pos hfull]
      exact .inl ⟨_, rfl, rfl⟩
    · have hroom : ¬ limits.arraySize ≤ (m.heap.items r).length := fun hle => hfull (hsize.trans hle)
      rw [if_neg hfull, if_neg hroom]
      exact .inr rfl
  · exact .inr rfl
  · exact .inr rfl

theorem steady_pop : (pop : Builtin κ).Steady := by
  intro args m c limits _
  refine .inr ?_
  unfold pop
  dsimp only
  split <;> rfl

/-- Making an array does not depend on limits that do not stop it. -/
theorem steady_array : (array : Builtin κ).Steady := by
  intro args m c limits hraised
  have hsize := hraised.arraySize
  have hlimits : (m.relimited limits).limits = limits := rfl
  unfold array
  dsimp only
  split
  · next n v =>
    rw [hlimits]
    by_cases hbad : (n < 0 || m.limits.arraySize < n.toInt.toNat) = true
    · rw [if_pos hbad]
      exact .inl ⟨_, rfl, rfl⟩
    · have hgood : ¬ (n < 0 || limits.arraySize < n.toInt.toNat) = true := by
        simp only [Bool.or_eq_true, decide_eq_true_eq, not_or] at hbad ⊢
        exact ⟨hbad.1, fun hlt => hbad.2 (Nat.lt_of_le_of_lt hsize hlt)⟩
      rw [if_neg hbad, if_neg hgood]
      exact .inr rfl
  · exact .inr rfl
  · exact .inr rfl

/-- Of the functions on arrays, one tells the limit of memory. -/
theorem steady_memory {b : Builtin κ} (h : b ∈ (Module.memory : Module κ).builtins)
    (hname : b.name ≠ "ram_size") : b.Steady := by
  simp only [Module.memory, List.mem_cons, List.not_mem_nil, or_false] at h
  rcases h with rfl | rfl | rfl | rfl | rfl
  · exact steady_push
  · exact steady_pop
  · exact steady_ofResult fun _ _ _ => rfl
  · exact steady_array
  · exact absurd rfl hname

theorem steady_floatingPoint {b : Builtin κ}
    (h : b ∈ (Module.floatingPoint : Module κ).builtins) : b.Steady :=
  forall_floatingPoint (fun _ _ _ => steady_ofResult fun _ _ _ => rfl)
    (fun _ _ _ => steady_ofResult fun _ _ _ => rfl) (steady_ofResult fun _ _ _ => rfl) b h

end Builtin

/-- A function of the library that does not tell the limit of memory is steady. -/
theorem steady_ofModules {modules : List (Module κ)}
    (hmodules : ∀ module ∈ modules, module ∈ [Module.standard, Module.memory, Module.floatingPoint])
    {b : Builtin κ} (hb : b ∈ (Registry.ofModules modules).builtins) (hname : b.name ≠ "ram_size") :
    b.Steady := by
  have hall : ∀ b ∈ (Registry.ofModules modules).builtins, b.name ≠ "ram_size" → b.Steady :=
    Registry.forall_ofModules (fun _ hb _ => Builtin.steady_standard hb)
      (fun _ hb hname => Builtin.steady_memory hb hname)
      (fun _ hb _ => Builtin.steady_floatingPoint hb) (fun module hm => .inl (hmodules module hm))
  exact hall b hb hname

/-- The step is no call of the host, or the host looks at the limits only to refuse it an array that is too
big, and leaves them as they are. -/
def Service.SteadyFor (s : Service κ) (e : Executed κ) : Prop :=
  ∀ id args, e.status = .request id args →
    let served := s e.stepped e.before id args
    served.2.1.limits = e.stepped.limits ∧ ∀ limits, e.stepped.limits.Raised limits →
      (∃ f, served.1 = .error f ∧ f.cause = .arrayTooBig) ∨
        s (e.stepped.relimited limits) e.before id args =
          (served.1, served.2.1.relimited limits, served.2.2)

/-- A registry does so for a step that calls a steady function, or none. -/
theorem Registry.steadyFor_dispatch {r : Registry κ} {e : Executed κ}
    (h : ∀ call ∈ r.hostCalls [e], call.builtin.Steady) : Service.SteadyFor r.dispatch e := by
  intro id args hstatus
  obtain ⟨-, hlimits, -⟩ := r.dispatch_unspent e.stepped e.before id args
  refine ⟨hlimits, fun limits hraised => ?_⟩
  cases hb : r.meant? e.stepped.image id with
  | none =>
    have hb' : r.meant? (e.stepped.relimited limits).image id = none := hb
    refine .inr ?_
    unfold dispatch
    rw [hb, hb']
    rfl
  | some b =>
    have hb' : r.meant? (e.stepped.relimited limits).image id = some b := hb
    have hcalled : (⟨b, args, e.stepped, e.before⟩ : HostCall κ) ∈ r.hostCalls [e] :=
      mem_hostCalls.2 ⟨e, List.mem_cons_self, id, hstatus, hb, rfl, rfl⟩
    rw [dispatch_of_meant hb, dispatch_of_meant hb']
    unfold Builtin.serve
    rcases h _ hcalled args e.stepped e.before limits hraised with ⟨f, hf, hcause⟩ | hsame
    · exact .inl ⟨f, hf, hcause⟩
    · rw [hsame]
      exact .inr rfl

/-! ## Turns -/

namespace Machine

variable {m : Machine} {limits : Limits}

/-- A step that fails for no limit, under higher limits. -/
theorem step_relimited (h : m.limits.Raised limits) {m' : Machine} {status : Status}
    (hs : m.step = (m', status)) (hmet : status.isLimit = false) :
    (m.relimited limits).step = (m'.relimited limits, status) ∧ m'.limits.Raised limits := by
  have hpersists := persists_step h
  have hlimits := Course.limits_step m
  rw [Persists, hs] at hpersists
  rw [hs] at hlimits
  exact ⟨hpersists hmet, hlimits ▸ h⟩

/-- Settling an answer does not depend on the limits. -/
theorem settle_relimited (m : Machine) (limits : Limits) (served : Except Fault Value) :
    (m.relimited limits).settle served = ((m.settle served).1, (m.settle served).2.relimited limits) := by
  have hp : (m.relimited limits).phase = m.phase := rfl
  have hf : (m.relimited limits).fault? = m.fault? := rfl
  cases served with
  | ok v =>
    rw [settle, settle]
    obtain ⟨h, hanswer⟩ | ⟨h, hanswer⟩ := m.pushResult_cases v
    · rw [hanswer, pushResult_of_awaiting (hp.trans h)]
      rfl
    · rw [hanswer, pushResult_of_not_awaiting (hp ▸ h)]
      rfl
  | error f =>
    simp only [settle, hf]
    cases m.fault?.isSome <;> rfl

end Machine

/-- The step under other limits. -/
def Executed.relimited (e : Executed κ) (limits : Limits) : Executed κ :=
  { e with stepped := e.stepped.relimited limits, machine := e.machine.relimited limits }

/-- The turn under other limits: its report and the host's own data are the same. -/
def Turn.relimited (t : Turn κ) (limits : Limits) : Turn κ :=
  { t with steps := t.steps.map (·.relimited limits), machine := t.machine.relimited limits }

/-- An answer refuses a call for a limit, or is the same under higher limits. -/
theorem Service.answer_relimited {s : Service κ} {m m₁ m' : Machine} {c c' : κ} {id : UInt32}
    {args : List Value} {limits : Limits} {result : Except Fault Unit} (h : m.limits.Raised limits)
    (ha : s.answer m c id args = (result, m', c'))
    (hsteady : s.SteadyFor ⟨m, .request id args, c, m₁, c'⟩)
    (hmet : ∀ f, result = .error f → f.cause.isLimit = false) :
    s.answer (m.relimited limits) c id args = (result, m'.relimited limits, c') ∧
      m'.limits.Raised limits := by
  obtain ⟨hlimits, hsame⟩ := hsteady id args rfl
  unfold answer at ha ⊢
  rcases hsame limits h with ⟨f, hf, hcause⟩ | hsame
  · -- What is refused for an array that is too big would have ended the turn for a limit.
    have hresult : result = .error f := by
      have hfirst := congrArg Prod.fst ha
      dsimp only at hf hfirst
      rw [hf] at hfirst
      exact hfirst.symm
    have hlimit := hmet f hresult
    rw [hcause] at hlimit
    exact nomatch hlimit
  · dsimp only at hlimits hsame
    rw [hsame]
    obtain ⟨-, hsettled, -⟩ := (s m c id args).2.1.settle_unspent (s m c id args).1
    dsimp only at ha ⊢
    rw [Machine.settle_relimited]
    cases ha
    exact ⟨rfl, hsettled.trans hlimits ▸ h⟩

/-- **A turn that ends for no limit is the same under higher limits**, step by step and call by call. -/
theorem Unfolds.relimited {s : Service κ} {m m' : Machine} {c c' : κ} {steps : List (Executed κ)}
    {outcome : Outcome} {limits : Limits} (hu : Unfolds s.answer m c steps outcome m' c')
    (h : m.limits.Raised limits) (hsteady : ∀ e ∈ steps, s.SteadyFor e)
    (hmet : outcome.isLimit = false) :
    Unfolds s.answer (m.relimited limits) c (steps.map (·.relimited limits)) outcome
      (m'.relimited limits) c' ∧ m'.limits.Raised limits := by
  induction hu with
  | goes step _ ih =>
    obtain ⟨-, hsteady⟩ := List.forall_mem_cons.1 hsteady
    obtain ⟨hstep, h⟩ := Machine.step_relimited h step rfl
    obtain ⟨hrest, h⟩ := ih h hsteady hmet
    exact ⟨.goes hstep hrest, h⟩
  | answered step reply _ ih =>
    obtain ⟨hfirst, hsteady⟩ := List.forall_mem_cons.1 hsteady
    obtain ⟨hstep, h⟩ := Machine.step_relimited h step rfl
    obtain ⟨hreply, h⟩ := Service.answer_relimited h reply hfirst (fun f hf => nomatch hf)
    obtain ⟨hrest, h⟩ := ih h hsteady hmet
    exact ⟨.answered hstep hreply hrest, h⟩
  | refused step reply =>
    obtain ⟨hfirst, -⟩ := List.forall_mem_cons.1 hsteady
    obtain ⟨hstep, h⟩ := Machine.step_relimited h step rfl
    obtain ⟨hreply, h⟩ := Service.answer_relimited h reply hfirst (fun f hf => by cases hf; exact hmet)
    exact ⟨.refused hstep hreply, h⟩
  | ends step last =>
    obtain ⟨hstep, h⟩ := Machine.step_relimited h step ((Status.isLimit_of_outcome last).trans hmet)
    exact ⟨.ends hstep last, h⟩

/-- Turns that end for no limit are the same under higher limits. -/
theorem Turns.relimited {s : Service κ} {m : Machine} {c : κ} {ts : List (Turn κ)} {limits : Limits}
    (ht : Turns s.answer m c ts) (h : m.limits.Raised limits)
    (hsteady : ∀ t ∈ ts, ∀ e ∈ t.steps, s.SteadyFor e)
    (hmet : ∀ t ∈ ts, t.report.outcome.isLimit = false) :
    Turns s.answer (m.relimited limits) c (ts.map (·.relimited limits)) := by
  induction ht with
  | done => exact .done _ _
  | @next m m' c c' steps outcome ts turn _ ih =>
    obtain ⟨hfirst, hsteady⟩ := List.forall_mem_cons.1 hsteady
    obtain ⟨hmet, hrest⟩ := List.forall_mem_cons.1 hmet
    obtain ⟨hturn, h⟩ := turn.relimited h hfirst hmet
    have hstarted : Unfolds s.answer (m.relimited limits).startTick c
        (steps.map (·.relimited limits)) outcome (m'.relimited limits) c' := hturn
    exact .next hstarted (ih h hsteady hrest)

/-- **Higher limits go unnoticed by a program that met none.** Load a program, give it any number of turns,
and suppose that it never fails for want of memory, for too many calls inside each other, or for a tuple or an
array that is too big. Suppose further that the host looks at the limits only to refuse arrays. Then the
program can be loaded under any higher limits with the same instructions a tick, and its turns go the same
way: the reports and what the host keeps are the same turn by turn, and so are the machines but for their
limits. Of the functions of a registry only those that are called have to be steady. -/
theorem raised_limits_unnoticed {bytes : List UInt8} {limits limits' : Limits} {m : Machine}
    (hload : Machine.load bytes limits = .ok m) (hraised : limits.Raised limits') (c : κ) :
    ∃ m', Machine.load bytes limits' = .ok m' ∧
      (∀ (s : Service κ) (ts : List (Turn κ)), Turns s.answer m c ts →
        (∀ t ∈ ts, ∀ e ∈ t.steps, s.SteadyFor e) →
        (∀ t ∈ ts, t.report.outcome.isLimit = false) →
        Turns s.answer m' c (ts.map (·.relimited limits'))) ∧
      ∀ (r : Registry κ) (n : Nat),
        (∀ t ∈ r.turns n m c, ∀ call ∈ r.hostCalls t.steps, call.builtin.Steady) →
        (∀ report ∈ r.reports n m c, report.outcome.isLimit = false) →
        r.reports n m' c = r.reports n m c ∧
          r.turns n m' c = (r.turns n m c).map (·.relimited limits') := by
  obtain ⟨image, shapes, himage, hshapes, rfl⟩ := Machine.load_eq_ok.1 hload
  have hserved (s : Service κ) (ts : List (Turn κ))
      (ht : Turns s.answer (.start image shapes limits) c ts)
      (hsteady : ∀ t ∈ ts, ∀ e ∈ t.steps, s.SteadyFor e)
      (hmet : ∀ t ∈ ts, t.report.outcome.isLimit = false) :
      Turns s.answer (.start image shapes limits') c (ts.map (·.relimited limits')) :=
    ht.relimited hraised hsteady hmet
  refine ⟨_, Machine.load_eq_ok.2 ⟨image, shapes, himage, hshapes, rfl⟩, hserved, ?_⟩
  intro r n hsteady hmet
  have hturns : r.turns n (.start image shapes limits') c =
      (r.turns n (.start image shapes limits) c).map (·.relimited limits') := by
    -- The turns of the registry are turns of the service that it makes, and a service has only one course.
    refine (r.turns_answer n _ c).unique (hserved r.dispatch _ (r.turns_answer n _ c) ?_ ?_) ?_
    · intro t ht e he
      refine Registry.steadyFor_dispatch fun call hcall => hsteady t ht call ?_
      obtain ⟨e', he', hrest⟩ := Registry.mem_hostCalls.1 hcall
      exact Registry.mem_hostCalls.2 ⟨e', List.mem_singleton.1 he' ▸ he, hrest⟩
    · intro t ht
      rw [← r.map_report_turns] at hmet
      exact hmet _ (List.mem_map_of_mem ht)
    · rw [List.length_map, r.length_turns, r.length_turns]
  refine ⟨?_, hturns⟩
  rw [← r.map_report_turns, ← r.map_report_turns, hturns, List.map_map]
  rfl

/-! ## A program that meets no limit -/

namespace Filling

/-- The functions on arrays, with the one that tells the limit of memory. -/
def library : Registry Unit := .ofModules [Module.memory]

/-- A program that makes an array of two elements in every tick. -/
def image : Image :=
  ⟨library.signatures.map Signature.name, [],
    ⟨library.signatures.mapIdx fun i b => ⟨.ofNat i, b.arity, b.cost⟩, [], [],
      [.tick [.pushInt 2, .pushInt 7, .callBuiltin 3, .discard]]⟩⟩

/-- Memory for that array, and no calls and tuples. -/
def limits : Limits := ⟨1000, 112, 0, 0⟩

theorem load_image : Machine.load image.encode limits = .ok (.start image [] limits) := by
  have hfits : image.Fits := by
    refine ⟨?_, ?_, ?_, ?_, ?_, ?_, ?_, List.forall_mem_nil _, bodyFits_of_count ?_⟩
    all_goals decide +kernel
  exact Machine.load_of_fits hfits rfl limits

/-- In two turns the program calls nothing but the function that makes arrays. -/
theorem names_called : (library.turns 2 (.start image [] limits) ()).map (fun t =>
    (library.hostCalls t.steps).map (·.builtin.name)) = [["array"], ["array"]] := by
  cbv

end Filling

/-- A program that makes arrays, with a host that would tell it the limit of memory, does the same with
more memory, calls and tuples. -/
theorem raised_limits_unnoticed_filling :
    ∃ m m', Machine.load Filling.image.encode Filling.limits = .ok m ∧
      Machine.load Filling.image.encode .least = .ok m' ∧
      Filling.library.reports 2 m () = [⟨.yielded, []⟩, ⟨.yielded, []⟩] ∧
      Filling.library.reports 2 m' () = Filling.library.reports 2 m () ∧
      Filling.library.turns 2 m' () = (Filling.library.turns 2 m ()).map (·.relimited .least) := by
  have hreports : Filling.library.reports 2 (.start Filling.image [] Filling.limits) () =
      [⟨.yielded, []⟩, ⟨.yielded, []⟩] := by
    cbv
  have hsteady : ∀ t ∈ Filling.library.turns 2 (.start Filling.image [] Filling.limits) (),
      ∀ call ∈ Filling.library.hostCalls t.steps, call.builtin.Steady := by
    intro t ht call hcall
    have hlib : ∀ module ∈ [Module.memory],
        module ∈ [Module.standard, Module.memory, (Module.floatingPoint : Module Unit)] := by
      intro module hm
      rw [List.mem_singleton.1 hm]
      exact List.mem_cons_of_mem _ List.mem_cons_self
    obtain ⟨e, -, id, -, hmeant, -⟩ := Registry.mem_hostCalls.1 hcall
    refine steady_ofModules hlib (Registry.mem_of_meant? hmeant) ?_
    have hnames : (Filling.library.hostCalls t.steps).map (·.builtin.name) = ["array"] := by
      have hmem := List.mem_map_of_mem (f := fun t =>
        (Filling.library.hostCalls t.steps).map (·.builtin.name)) ht
      rw [Filling.names_called] at hmem
      simpa using hmem
    have hname : call.builtin.name ∈ ["array"] := hnames ▸ List.mem_map_of_mem hcall
    rw [List.mem_singleton.1 hname]
    decide
  have hmet : ∀ report ∈ Filling.library.reports 2 (.start Filling.image [] Filling.limits) (),
      report.outcome.isLimit = false := by
    rw [hreports]
    decide
  have hraised : Filling.limits.Raised .least := ⟨rfl, by decide, by decide, by decide⟩
  obtain ⟨m', hload, -, hserved⟩ := raised_limits_unnoticed Filling.load_image hraised ()
  obtain ⟨hsame, hturns⟩ := hserved Filling.library 2 hsteady hmet
  exact ⟨_, m', Filling.load_image, hload, hreports, hsame, hturns⟩

end TickScript
