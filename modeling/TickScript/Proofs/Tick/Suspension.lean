import TickScript.Proofs.Builtin.Conduct
import TickScript.Proofs.Image.Loading
import TickScript.Proofs.Tick.Unfolding

/-!
# Suspension

A turn ends early when the instructions of the tick are spent, and the next turn goes on from there.
Where that happens depends on the budget, what the program does does not: the steps that are made, the
answers of the host and the lines that are printed are the same for every budget that allows any step
at all.

The steps of a machine without its meter form one sequence (`Service.Beats`), which nothing but the
machine and the host's own data decides. Any number of turns under any budget makes a first part of
that sequence, and what the turns report can be read off it. So two budgets can differ only in how far
they come.

The host must not look at the budget, and it must leave the log to itself: how many lines there are when
it is called depends on where the turn before has ended. A function that drains the log shows the budget
(`Draining.exists_disagreement`).
-/

namespace TickScript

variable {κ : Type}

/-! ## What is compared -/

/-- What a step left, without the meters. -/
def Executed.fresh (e : Executed κ) : Executed κ :=
  { e with stepped := e.stepped.fresh, machine := e.machine.fresh }

/-- The host's own data after each call that the steps made. -/
def contexts (steps : List (Executed κ)) : List κ :=
  (steps.filter (·.status.isRequest)).map (·.context)

/-- The reports without those of suspended turns, whose lines are put in front of the next report's;
`held` are the lines that wait for it. -/
def joined (held : List String) : List TickReport → List TickReport
  | [] => []
  | t :: ts =>
    match t.outcome with
    | .suspended => joined (held ++ t.lines) ts
    | _ => ⟨t.outcome, held ++ t.lines⟩ :: joined [] ts

/-- Of two sequences one goes on where the other one ends. -/
def Agree {α : Type} (as bs : List α) : Prop := as <+: bs ∨ bs <+: as

/-- What grows with its input agrees where the inputs do. -/
theorem Agree.image {α β : Type} {as bs : List α} {f : List α → List β}
    (hf : ∀ as bs, f as <+: f (as ++ bs)) (h : Agree as bs) : Agree (f as) (f bs) := by
  rcases h with ⟨rest, rfl⟩ | ⟨rest, rfl⟩
  · exact .inl (hf as rest)
  · exact .inr (hf bs rest)

/-- Two runs differ in nothing but where their turns were suspended, as far as both of them come. -/
structure SameCourse (ts₁ ts₂ : List (Turn κ)) : Prop where
  reports : Agree (joined [] (ts₁.map (·.report))) (joined [] (ts₂.map (·.report)))
  contexts : Agree (contexts (history ts₁)) (contexts (history ts₂))
  machines : Agree ((history ts₁).map Executed.fresh) ((history ts₂).map Executed.fresh)

/-! ## Hosts that do not see the meter -/

/-- The host looks neither at how many instructions a tick has nor at how many are spent: under another
budget a call comes to the same, and leaves the same machine but for its budget. -/
def Service.IgnoresBudget (s : Service κ) : Prop :=
  ∀ (m : Machine) (c : κ) (id : UInt32) (args : List Value) (instructions spent : Nat),
    let served := s m c id args
    let served' := s (m.budgeted instructions spent) c id args
    served'.1 = served.1 ∧ served'.2.1.budgeted 0 0 = served.2.1.budgeted 0 0 ∧
      served'.2.2 = served.2.2

/-- The host neither reads nor removes the lines it finds in the log. -/
def Service.AddsLines (s : Service κ) : Prop :=
  ∀ (m : Machine) (c : κ) (id : UInt32) (args : List Value),
    let served := s { m with log := [] } c id args
    s m c id args = (served.1, { served.2.1 with log := m.log ++ served.2.1.log }, served.2.2)

/-- Settling an answer does not depend on the meter or the log. -/
theorem Machine.settle_metered (m : Machine) (i n : Nat) (l : List String) (served : Except Fault Value) :
    (m.metered i n l).settle served = ((m.settle served).1, (m.settle served).2.metered i n l) := by
  have hp : (m.metered i n l).phase = m.phase := rfl
  cases served with
  | ok v =>
    rw [settle, settle]
    obtain ⟨h, hanswer⟩ | ⟨h, hanswer⟩ := m.pushResult_cases v
    · rw [hanswer, pushResult_of_awaiting (hp.trans h)]
      rfl
    · rw [hanswer, pushResult_of_not_awaiting (hp ▸ h)]
      rfl
  | error f =>
    have hf : (m.metered i n l).fault? = m.fault? := rfl
    simp only [settle, hf]
    cases m.fault?.isSome <;> rfl

theorem Machine.log_settle (m : Machine) (served : Except Fault Value) :
    (m.settle served).2.log = m.log := by
  cases served with
  | ok v =>
    obtain ⟨-, h⟩ | ⟨-, h⟩ := m.pushResult_cases v
    all_goals
      rw [settle, h]
  | error f =>
    simp only [settle]
    split <;> rfl

namespace Service

variable {s : Service κ} {m m' : Machine} {c c' : κ} {id : UInt32} {args : List Value}

/-- The host answers without looking at the meter, and its lines come after those in the log. -/
theorem fresh_answer (hb : s.IgnoresBudget) (hl : s.AddsLines) {result : Except Fault Unit}
    (h : s.answer m c id args = (result, m', c')) :
    ∃ n, s.answer m.fresh c id args = (result, n, c') ∧ n.fresh = m'.fresh ∧
      m'.log = m.log ++ n.log := by
  have hlog := hl m c id args
  obtain ⟨hserved, hmachine, hcontext⟩ := hb { m with log := [] } c id args 1 0
  -- Without its log the machine is served under two budgets, which only the budget of the two results tells.
  have hfresh : s m.fresh c id args = s (({ m with log := [] } : Machine).budgeted 1 0) c id args := rfl
  rw [← hfresh] at hserved hmachine hcontext
  unfold answer at h ⊢
  rw [hlog] at h
  generalize s { m with log := [] } c id args = drained at h hserved hmachine hcontext
  generalize s m.fresh c id args = unmetered at hserved hmachine hcontext ⊢
  obtain ⟨served, n, context⟩ := drained
  obtain ⟨served', n', context'⟩ := unmetered
  cases hserved
  cases hcontext
  have hn : n' = n.metered n'.limits.instructions n'.spent n.log := by
    have hbudget := congrArg (fun x : Machine => x.budgeted n'.limits.instructions n'.spent) hmachine
    exact hbudget
  have hm : ({ n with log := m.log ++ n.log } : Machine) =
      n.metered n.limits.instructions n.spent (m.log ++ n.log) := rfl
  dsimp only at h ⊢
  rw [hm, Machine.settle_metered] at h
  rw [hn, Machine.settle_metered]
  cases h
  exact ⟨_, rfl, rfl, rfl⟩

/-- A machine whose call was answered runs on. -/
theorem running_answer {u : Unit} (h : s.answer m c id args = (.ok u, m', c')) : m'.phase = .running := by
  unfold answer at h
  rcases hs : s m c id args with ⟨f | v, n, context⟩
  · rw [hs] at h
    cases h
  · obtain ⟨-, hanswer⟩ | ⟨-, hanswer⟩ := n.pushResult_cases v
    all_goals
      simp only [hs, Machine.settle, hanswer] at h
      cases h
    rfl

end Service

/-! ## Steps without a meter -/

/-- A step of a machine without its meter: what it left, the lines it added to the log with the report
of a failure, and how it ended the turn, if it did. -/
structure Beat (κ : Type) where
  executed : Executed κ
  lines : List String
  outcome : Option Outcome

namespace Service

/-- The step that a machine makes when its budget allows one. -/
def beat (s : Service κ) (m : Machine) (c : κ) : Beat κ :=
  match m.fresh.step with
  | (m', .request id args) =>
    match s.answer m'.fresh c id args with
    | (.ok _, m'', c') => ⟨⟨m'.fresh, .request id args, c, m''.fresh, c'⟩, m''.log, none⟩
    | (.error f, m'', c') =>
      ⟨⟨m'.fresh, .request id args, c, m''.fresh, c'⟩, m''.log ++ f.report, some (.faulted f)⟩
  | (m', status) =>
    ⟨⟨m'.fresh, status, c, m'.fresh, c⟩,
      status.outcome?.elim [] (·.report m.fault?.isSome), status.outcome?⟩

/-- The steps of a machine without its meter, one after the other. -/
inductive Beats (s : Service κ) : Machine → κ → List (Beat κ) → Machine → κ → Prop
  | done (m : Machine) (c : κ) : Beats s m c [] m c
  | next {m m' : Machine} {c c' : κ} {bs : List (Beat κ)}
      (rest : Beats s (s.beat m c).executed.machine (s.beat m c).executed.context bs m' c') :
      Beats s m c (s.beat m c :: bs) m' c'

namespace Beats

variable {s : Service κ}

/-- Beats of one stretch and of the next are beats of both. -/
theorem append {m m' m'' : Machine} {c c' c'' : κ} {as bs : List (Beat κ)}
    (h : s.Beats m c as m' c') (h' : s.Beats m' c' bs m'' c'') : s.Beats m c (as ++ bs) m'' c'' := by
  induction h with
  | done m c => exact h'
  | next rest ih => exact .next (ih h')

/-- Nothing but the machine and the host's own data decides what comes. -/
theorem agree {m m₁ m₂ : Machine} {c c₁ c₂ : κ} {as bs : List (Beat κ)}
    (h₁ : s.Beats m c as m₁ c₁) (h₂ : s.Beats m c bs m₂ c₂) : Agree as bs := by
  induction h₁ generalizing bs with
  | done m c => exact .inl List.nil_prefix
  | next rest ih =>
    cases h₂ with
    | done => exact .inr List.nil_prefix
    | next rest' =>
      rcases ih rest' with h | h
      · exact .inl ((List.prefix_cons_inj _).2 h)
      · exact .inr ((List.prefix_cons_inj _).2 h)

end Beats

/-! ## Turns as parts of the one sequence -/

section Beat

variable {s : Service κ} {m m' m'' : Machine} {c c' : κ}

/-- A step that is neither refused nor a request is a beat that asks nobody. -/
theorem beat_of_step {status : Status} (h : m.step = (m', status)) (hr : status.isRefusal = false)
    (hq : status.isRequest = false) :
    s.beat m c = ⟨⟨m'.fresh, status, c, m'.fresh, c⟩,
      status.outcome?.elim [] (·.report m.fault?.isSome), status.outcome?⟩ := by
  have hn : status ≠ .budgetSpent := by
    rintro rfl
    exact nomatch hr
  obtain ⟨n, hn, hf, -⟩ := Machine.fresh_step h hn
  unfold beat
  rw [hn, ← hf]
  cases status with
  | request => exact nomatch hq
  | _ => rfl

/-- A step that calls the host leaves what the host leaves of the machine without its meter. -/
theorem beat_of_request (hb : s.IgnoresBudget) (hl : s.AddsLines) {id : UInt32} {args : List Value}
    {result : Except Fault Unit} (h : m.step = (m', .request id args))
    (ha : s.answer m' c id args = (result, m'', c')) :
    ∃ lines, m''.log = m.log ++ lines ∧
      s.beat m c = ⟨⟨m'.fresh, .request id args, c, m''.fresh, c'⟩,
        lines ++ (match result with | .ok _ => [] | .error f => f.report),
        match result with | .ok _ => none | .error f => some (.faulted f)⟩ := by
  obtain ⟨n, hn, hf, hlog, -⟩ := Machine.fresh_step h (fun hs => nomatch hs)
  obtain ⟨n', hn', hf', hlog'⟩ := fresh_answer hb hl ha
  refine ⟨n'.log, hlog' ▸ hlog ▸ rfl, ?_⟩
  unfold beat
  rw [hn]
  dsimp only
  rw [hf, hn', ← hf']
  cases result with
  | ok u => simp only [List.append_nil]
  | error f => rfl

end Beat

end Service

/-- The reports that can be read off the steps; `held` are lines that wait for the end of a turn. -/
def tell (held : List String) : List (Beat κ) → List TickReport
  | [] => []
  | b :: bs =>
    match b.outcome with
    | none => tell (held ++ b.lines) bs
    | some o => ⟨o, held ++ b.lines⟩ :: tell [] bs

/-- The reports from the end of a turn on: a suspended turn leaves its lines to the next. -/
def tellFrom (outcome : Outcome) (lines : List String) (rest : List (Beat κ)) : List TickReport :=
  match outcome with
  | .suspended => tell lines rest
  | _ => ⟨outcome, lines⟩ :: tell [] rest

/-- What was told stays told with more beats behind it. -/
theorem tell_append (held : List String) (as bs : List (Beat κ)) : tell held as <+: tell held (as ++ bs) := by
  induction as generalizing held with
  | nil => exact List.nil_prefix
  | cons a as ih =>
    rw [List.cons_append, tell, tell]
    split
    · exact ih _
    · exact (List.prefix_cons_inj _).2 (ih [])

/-- A turn as a part of the one sequence of steps: `bs` are its steps and `lines` what they added to
the log. -/
structure Segment (s : Service κ) (m : Machine) (c : κ) (bs : List (Beat κ)) (lines : List String)
    (steps : List (Executed κ)) (outcome : Outcome) (m' : Machine) (c' : κ) : Prop where
  beats : s.Beats m.fresh c bs m'.fresh c'
  steps : (steps.filter (!·.status.isRefusal)).map Executed.fresh = bs.map (·.executed)
  log : m'.log = m.log ++ lines
  told : ∀ held rest, tell held (bs ++ rest) =
    tellFrom outcome (held ++ (lines ++ outcome.report m.fault?.isSome)) rest

namespace Segment

variable {s : Service κ} {m m' : Machine} {c c' : κ} {outcome : Outcome}

/-- A turn that is refused its first step. -/
theorem refused (m : Machine) (c : κ) :
    Segment s m c [] [] [⟨m, .budgetSpent, c, m, c⟩] .suspended m c where
  beats := .done m.fresh c
  steps := rfl
  log := (List.append_nil _).symm
  told held rest := by simp [tellFrom, Outcome.report]

/-- A turn that ends with its first step. -/
theorem last {e : Executed κ} {lines : List String} (hr : e.status.isRefusal = false)
    (hs : outcome ≠ .suspended)
    (hb : s.beat m c = ⟨e.fresh, lines ++ outcome.report m.fault?.isSome, some outcome⟩)
    (hl : e.machine.log = m.log ++ lines) :
    Segment s m c [s.beat m c] lines [e] outcome e.machine e.context where
  beats := by
    have h : s.Beats m.fresh c [s.beat m.fresh c] (s.beat m.fresh c).executed.machine
        (s.beat m.fresh c).executed.context := .next (.done _ _)
    have he : s.beat m.fresh c = s.beat m c := rfl
    rw [he, hb] at h
    rw [hb]
    exact h
  steps := by
    rw [hb, List.filter_cons_of_pos (by rw [hr]; rfl)]
    rfl
  log := hl
  told held rest := by
    rw [hb]
    cases outcome with
    | suspended => exact absurd rfl hs
    | _ => rfl

/-- A turn that goes on after its first step. -/
theorem cons {e : Executed κ} {lines lines' : List String} {bs : List (Beat κ)}
    {steps : List (Executed κ)} (hr : e.status.isRefusal = false)
    (hb : s.beat m c = ⟨e.fresh, lines, none⟩) (hl : e.machine.log = m.log ++ lines)
    (hf : e.machine.fault? = m.fault?)
    (h : Segment s e.machine e.context bs lines' steps outcome m' c') :
    Segment s m c (s.beat m c :: bs) (lines ++ lines') (e :: steps) outcome m' c' where
  beats := by
    have h' : s.Beats (s.beat m.fresh c).executed.machine (s.beat m.fresh c).executed.context bs
        m'.fresh c' := by
      have he : s.beat m.fresh c = s.beat m c := rfl
      rw [he, hb]
      exact h.beats
    exact .next h'
  steps := by
    rw [List.filter_cons_of_pos (by rw [hr]; rfl), List.map_cons, List.map_cons, h.steps, hb]
  log := by rw [h.log, hl, List.append_assoc]
  told held rest := by
    rw [List.cons_append, tell, hb]
    dsimp only
    rw [h.told, hf]
    simp only [List.append_assoc]

end Segment

theorem Machine.fault?_of_running {m : Machine} (h : m.phase = .running) : m.fault? = none := by
  unfold fault?
  rw [h]

/-- Every turn is a part of the one sequence of steps. -/
theorem Unfolds.segment {s : Service κ} (hb : s.IgnoresBudget) (hl : s.AddsLines) {m m' : Machine}
    {c c' : κ} {steps : List (Executed κ)} {outcome : Outcome}
    (h : Unfolds s.answer m c steps outcome m' c') :
    ∃ bs lines, Segment s m c bs lines steps outcome m' c' := by
  induction h with
  | @goes m m₁ m' c c' steps outcome step rest ih =>
    obtain ⟨bs, lines, hs⟩ := ih
    obtain ⟨n, -, -, hlog, -⟩ := Machine.fresh_step step (fun hs => nomatch hs)
    have hf := Machine.fault?_of_running (Machine.running_of_step step (.inl rfl))
    have hf' := Machine.fault?_of_running (Machine.running_step step (.inl rfl))
    exact ⟨_, _, .cons (e := ⟨m₁, .running, c, m₁, c⟩) rfl (Service.beat_of_step step rfl rfl)
      (hlog.trans (List.append_nil _).symm) (hf'.trans hf.symm) hs⟩
  | @answered m m₁ m₂ m' c c₂ c' id args u steps outcome step reply rest ih =>
    obtain ⟨bs, lines, hs⟩ := ih
    obtain ⟨added, hlog, hbeat⟩ := Service.beat_of_request hb hl step reply
    have hf := Machine.fault?_of_running (Machine.running_of_step step (.inr ⟨id, args, rfl⟩))
    have hf' := Machine.fault?_of_running (Service.running_answer reply)
    rw [List.append_nil] at hbeat
    exact ⟨_, _, .cons (e := ⟨m₁, .request id args, c, m₂, c₂⟩) rfl hbeat hlog (hf'.trans hf.symm) hs⟩
  | @refused m m₁ m' c c' id args f step reply =>
    obtain ⟨added, hlog, hbeat⟩ := Service.beat_of_request hb hl step reply
    have hf := Machine.fault?_of_running (Machine.running_of_step step (.inr ⟨id, args, rfl⟩))
    refine ⟨_, _, .last (e := ⟨m₁, .request id args, c, m', c'⟩) rfl (fun hs => nomatch hs) ?_ hlog⟩
    rw [hbeat, hf]
    rfl
  | @ends m m' c status outcome step last =>
    -- Of the last steps only the one that finds the budget spent is done again in the next turn.
    cases hr : status.isRefusal with
    | true =>
      cases status with
      | budgetSpent =>
        cases last
        have hm := Machine.step_of_refused (Machine.refused_of_step step)
        rw [step] at hm
        cases hm
        exact ⟨_, _, .refused m c⟩
      | _ => exact nomatch hr
    | false =>
      have hq : status.isRequest = false := by
        cases status with
        | request => exact nomatch last
        | _ => rfl
      have hs : status ≠ .budgetSpent ∧ outcome ≠ .suspended := by
        cases status with
        | running | request => exact nomatch last
        | budgetSpent => exact nomatch hr
        | yielded | complete | fault =>
          cases last
          exact ⟨(fun h => nomatch h), fun h => nomatch h⟩
      obtain ⟨n, -, -, hlog, -⟩ := Machine.fresh_step step hs.1
      have hbeat := Service.beat_of_step (s := s) (c := c) step hr hq
      rw [last] at hbeat
      exact ⟨_, [], .last (e := ⟨m', status, c, m', c⟩) hr hs.2 hbeat
        (hlog.trans (List.append_nil _).symm)⟩

/-! ## Runs of turns -/

/-- The reports of turns in a row can be read off a first part of the one sequence. -/
theorem Turns.joined_eq_tell {s : Service κ} (hb : s.IgnoresBudget) (hl : s.AddsLines) {m : Machine}
    {c : κ} {ts : List (Turn κ)} (h : Turns s.answer m c ts) (hm : m.log = []) :
    ∃ bs m' c', s.Beats m.fresh c bs m' c' ∧
      (history ts).map Executed.fresh = bs.map (·.executed) ∧
      ∀ held, joined held (ts.map (·.report)) = tell held bs := by
  induction h with
  | done m c => exact ⟨[], m.fresh, c, .done _ _, rfl, fun held => rfl⟩
  | @next m m' c c' steps outcome ts turn rest ih =>
    obtain ⟨bs, lines, hs⟩ := turn.segment hb hl
    obtain ⟨bs', m₁, c₁, hb', hs', ht'⟩ := ih rfl
    have hlines : m'.log = lines := by
      rw [hs.log]
      change m.log ++ lines = lines
      rw [hm, List.nil_append]
    refine ⟨bs ++ bs', m₁, c₁, hs.beats.append hb', ?_, ?_⟩
    · rw [history, List.flatMap_cons, List.map_append, List.map_append, hs.steps]
      exact congrArg _ hs'
    · intro held
      rw [hs.told held bs', List.map_cons, hlines]
      simp only [joined, tellFrom]
      cases outcome with
      | suspended => exact ht' _
      | _ => exact congrArg _ (ht' [])

/-- Turns of machines that differ in their budgets only take the same course. -/
theorem Turns.sameCourse {s : Service κ} (hb : s.IgnoresBudget) (hl : s.AddsLines) {m₁ m₂ : Machine}
    {c : κ} {ts₁ ts₂ : List (Turn κ)} (h₁ : Turns s.answer m₁ c ts₁) (h₂ : Turns s.answer m₂ c ts₂)
    (hm₁ : m₁.log = []) (hm₂ : m₂.log = []) (hm : m₁.fresh = m₂.fresh) : SameCourse ts₁ ts₂ := by
  obtain ⟨bs₁, n₁, c₁, hbs₁, hx₁, ht₁⟩ := h₁.joined_eq_tell hb hl hm₁
  obtain ⟨bs₂, n₂, c₂, hbs₂, hx₂, ht₂⟩ := h₂.joined_eq_tell hb hl hm₂
  have hbs : Agree bs₁ bs₂ := hbs₁.agree (hm ▸ hbs₂)
  have hc (steps : List (Executed κ)) : contexts (steps.map Executed.fresh) = contexts steps := by
    simp only [contexts, List.filter_map, List.map_map]
    rfl
  refine ⟨?_, ?_, ?_⟩
  · rw [ht₁, ht₂]
    exact hbs.image (tell_append [])
  · rw [← hc, hx₁, ← hc (history ts₂), hx₂]
    refine hbs.image (f := fun bs : List (Beat κ) => contexts (bs.map (·.executed))) ?_
    intro as bs
    simp only [contexts, List.map_append, List.filter_append]
    exact List.prefix_append _ _
  · rw [hx₁, hx₂]
    refine hbs.image (f := fun bs : List (Beat κ) => bs.map (·.executed)) ?_
    intro as bs
    rw [List.map_append]
    exact List.prefix_append _ _

/-- A turn with a budget makes a step. -/
theorem Unfolds.exists_made {answer : Answering κ} {m m' : Machine} {c c' : κ}
    {steps : List (Executed κ)} {outcome : Outcome}
    (h : Unfolds answer m.startTick c steps outcome m' c') (hm : 1 ≤ m.limits.instructions) :
    ∃ e ∈ steps, (!e.status.isRefusal) = true := by
  have hmade (m₁ : Machine) : m.startTick.step ≠ (m₁, .budgetSpent) := by
    intro hs
    have hn := (Machine.refused_of_step hs).2
    exact absurd (Nat.le_trans hm hn) (Nat.not_succ_le_zero 0)
  generalize m.startTick = n at h hmade
  cases h with
  | goes | answered | refused => exact ⟨_, List.mem_cons_self, rfl⟩
  | @ends _ _ _ status _ step last =>
    refine ⟨_, List.mem_cons_self, ?_⟩
    cases status with
    | budgetSpent => exact absurd step (hmade m')
    | _ => rfl

/-- Turns with a budget make at least one step each, if the host leaves the budget alone. -/
theorem Turns.length_le_history {answer : Answering κ} (ha : answer.Unmetered) {m : Machine} {c : κ}
    {ts : List (Turn κ)} (h : Turns answer m c ts) (hm : 1 ≤ m.limits.instructions) :
    ts.length ≤ (history ts).length := by
  induction h with
  | done m c => exact Nat.le_refl 0
  | @next m m' c c' steps outcome ts turn rest ih =>
    obtain ⟨n, hcharged⟩ := turn.exists_charged ha
    have hlimits : m'.limits = m.limits := hcharged.limits
    have hrest : ts.length ≤ (history ts).length := ih (hlimits ▸ hm)
    obtain ⟨e, he, hmade⟩ := turn.exists_made hm
    have hfirst : 1 ≤ (steps.filter (!·.status.isRefusal)).length :=
      List.length_pos_of_mem (List.mem_filter.2 ⟨he, hmade⟩)
    rw [history, List.flatMap_cons, List.length_append, List.length_cons, Nat.add_comm ts.length 1]
    exact Nat.add_le_add hfirst hrest

/-! ## The functions of a registry -/

namespace Registry

variable {r : Registry κ}

/-- Builtins that ignore the budget make a service that does. -/
theorem ignoresBudget_dispatch (hr : ∀ b ∈ r.builtins, b.IgnoresBudget) :
    Service.IgnoresBudget r.dispatch := by
  intro m c id args instructions spent
  have himage : (m.budgeted instructions spent).image = m.image := rfl
  unfold dispatch
  rw [himage]
  cases hb : r.meant? m.image id with
  | none => exact ⟨rfl, rfl, rfl⟩
  | some b =>
    dsimp only
    unfold Builtin.serve
    rw [hr b (mem_of_meant? hb) args m c instructions spent]
    exact ⟨rfl, rfl, rfl⟩

/-- Builtins that only add lines make a service that does. -/
theorem addsLines_dispatch (hr : ∀ b ∈ r.builtins, b.AddsLines) : Service.AddsLines r.dispatch := by
  intro m c id args
  unfold dispatch
  dsimp only
  cases hb : r.meant? m.image id with
  | none => simp only [List.append_nil]; rfl
  | some b =>
    dsimp only
    unfold Builtin.serve
    rw [hr b (mem_of_meant? hb) args m c]

end Registry

/-- **Suspension changes nothing.** Two machines that load the same program under budgets of at least
one instruction report the same once suspended turns are joined to the next ones, their host's own data
is the same after as many calls, and so is all of the machine but its meter after as many steps. This
holds of every host that does not look at the budget and leaves the log to itself, whatever else it does
with the machine. With the functions of a registry every turn makes a step, so each gets as far as the
other. A step that finds the budget spent leaves the machine as it is. -/
theorem suspension_transparent {bytes : List UInt8} {limits : Limits} {i₁ i₂ : Nat} (h₁ : 1 ≤ i₁)
    (h₂ : 1 ≤ i₂) {m₁ m₂ : Machine}
    (hm₁ : Machine.load bytes { limits with instructions := i₁ } = .ok m₁)
    (hm₂ : Machine.load bytes { limits with instructions := i₂ } = .ok m₂) (c : κ) :
    (∀ s : Service κ, s.IgnoresBudget → s.AddsLines → ∀ ts₁ ts₂, Turns s.answer m₁ c ts₁ →
      Turns s.answer m₂ c ts₂ → SameCourse ts₁ ts₂) ∧
    (∀ r : Registry κ, (∀ b ∈ r.builtins, b.IgnoresBudget ∧ b.AddsLines) → ∀ n₁ n₂,
      SameCourse (r.turns n₁ m₁ c) (r.turns n₂ m₂ c) ∧
        n₁ ≤ (history (r.turns n₁ m₁ c)).length ∧ n₂ ≤ (history (r.turns n₂ m₂ c)).length) ∧
    ∀ m m' : Machine, m.step = (m', .budgetSpent) → m' = m := by
  obtain ⟨image, shapes, hi, hs, rfl⟩ := Machine.load_eq_ok.1 hm₁
  obtain ⟨image', shapes', hi', hs', rfl⟩ := Machine.load_eq_ok.1 hm₂
  cases hi.symm.trans hi'
  cases (show some shapes = some shapes' from hs.symm.trans hs')
  -- Without their meters the two machines start as one.
  have hserved (s : Service κ) (hb : s.IgnoresBudget) (hl : s.AddsLines) (ts₁ ts₂ : List (Turn κ))
      (ht₁ : Turns s.answer (.start image shapes { limits with instructions := i₁ }) c ts₁)
      (ht₂ : Turns s.answer (.start image shapes { limits with instructions := i₂ }) c ts₂) :
      SameCourse ts₁ ts₂ :=
    ht₁.sameCourse hb hl ht₂ rfl rfl rfl
  refine ⟨hserved, fun r hr n₁ n₂ => ⟨?_, ?_, ?_⟩, ?_⟩
  · exact hserved r.dispatch (Registry.ignoresBudget_dispatch fun b hb => (hr b hb).1)
      (Registry.addsLines_dispatch fun b hb => (hr b hb).2) _ _ (r.turns_answer n₁ _ c)
      (r.turns_answer n₂ _ c)
  · have hle := (r.turns_answer n₁ (.start image shapes { limits with instructions := i₁ })
      c).length_le_history r.unmetered_answer h₁
    rwa [r.length_turns] at hle
  · have hle := (r.turns_answer n₂ (.start image shapes { limits with instructions := i₂ })
      c).length_le_history r.unmetered_answer h₂
    rwa [r.length_turns] at hle
  · intro m m' h
    have hm := Machine.step_of_refused (Machine.refused_of_step h)
    rw [h] at hm
    exact (Prod.mk.inj hm).1

/-- A program that prints in every tick, with one instruction a turn and with twenty. -/
theorem suspension_transparent_printing :
    ∃ m₁ m₂ : Machine,
      Machine.load (Image.link ⟨(⟨[.print]⟩ : Registry Unit).signatures, [], [],
        [.tick [.pushInt 7, .callBuiltin 0, .discard]]⟩).encode
          { Limits.least with instructions := 1 } = .ok m₁ ∧
      Machine.load (Image.link ⟨(⟨[.print]⟩ : Registry Unit).signatures, [], [],
        [.tick [.pushInt 7, .callBuiltin 0, .discard]]⟩).encode
          { Limits.least with instructions := 20 } = .ok m₂ ∧
      SameCourse ((⟨[.print]⟩ : Registry Unit).turns 40 m₁ ())
        ((⟨[.print]⟩ : Registry Unit).turns 3 m₂ ()) ∧
      40 ≤ (history ((⟨[.print]⟩ : Registry Unit).turns 40 m₁ ())).length ∧
      3 ≤ (history ((⟨[.print]⟩ : Registry Unit).turns 3 m₂ ())).length := by
  have hl (i : Nat) :
      Machine.load (Image.link ⟨(⟨[.print]⟩ : Registry Unit).signatures, [], [],
        [.tick [.pushInt 7, .callBuiltin 0, .discard]]⟩).encode
          { Limits.least with instructions := i } =
        .ok (.start (Image.link ⟨(⟨[.print]⟩ : Registry Unit).signatures, [], [],
          [.tick [.pushInt 7, .callBuiltin 0, .discard]]⟩) [] { Limits.least with instructions := i }) := by
    have hshapes : (Image.link ⟨(⟨[.print]⟩ : Registry Unit).signatures, [], [],
        [.tick [.pushInt 7, .callBuiltin 0, .discard]]⟩).Resolves [] := rfl
    exact Machine.load_link (.of_length_encode (by decide +kernel)) hshapes _
  have hr : ∀ b ∈ (⟨[.print]⟩ : Registry Unit).builtins, b.IgnoresBudget ∧ b.AddsLines := by
    intro b hb
    rw [List.mem_singleton.1 hb]
    exact ⟨Builtin.discreet_print.ignoresBudget, Builtin.discreet_print.addsLines⟩
  exact ⟨_, _, hl 1, hl 20,
    (suspension_transparent (by decide) (by decide) (hl 1) (hl 20) ()).2.1 _ hr 40 3⟩

/-! ## A function that drains the log -/

namespace Draining

/-- Takes the lines out of the log. -/
def drain : Builtin Unit where
  name := "drain"
  arity := 0
  cost := 1
  run _ m context := { m.reply (.ok .null) context with log := [] }

/-- A host that prints, and drains the log. -/
def host : Registry Unit := ⟨[.print, drain]⟩

/-- A program that prints a number and has the log drained. -/
def program : Program String (List String) :=
  ⟨host.signatures, [], [], [.pushInt 1, .callBuiltin 0, .discard, .callBuiltin 1, .discard]⟩

theorem ignoresBudget_host : ∀ b ∈ host.builtins, b.IgnoresBudget := by
  intro b hb
  rcases List.mem_cons.1 hb with rfl | hb
  · exact Builtin.discreet_print.ignoresBudget
  · rw [List.mem_singleton.1 hb]
    exact fun args m c instructions spent => rfl

theorem load_program (instructions : Nat) :
    Machine.load (Image.link program).encode { Limits.least with instructions } =
      .ok (.start (Image.link program) [] { Limits.least with instructions }) := by
  have hshapes : (Image.link program).Resolves [] := rfl
  exact Machine.load_link (.of_length_encode (by decide +kernel)) hshapes _

/-- **A function that drains the log shows the budget.** It ignores the budget, but with one instruction a
turn the printed line is reported before it is drained, and with a thousand it is not. -/
theorem exists_disagreement :
    ∃ (r : Registry Unit) (bytes : List UInt8) (m₁ m₂ : Machine),
      (∀ b ∈ r.builtins, b.IgnoresBudget) ∧
      Machine.load bytes { Limits.least with instructions := 1 } = .ok m₁ ∧
      Machine.load bytes { Limits.least with instructions := 1000 } = .ok m₂ ∧
      ¬ Agree (joined [] (r.reports 6 m₁ ())) (joined [] (r.reports 1 m₂ ())) := by
  refine ⟨host, _, _, _, ignoresBudget_host, load_program 1, load_program 1000, ?_⟩
  have hslow : joined [] (host.reports 6 (.start (Image.link program) [] ⟨1, 1024, 32, 4⟩) ()) =
      [⟨.completed, ["1"]⟩] := by
    cbv
  have hfast : joined [] (host.reports 1 (.start (Image.link program) [] ⟨1000, 1024, 32, 4⟩) ()) =
      [⟨.completed, []⟩] := by
    cbv
  intro h
  change Agree (joined [] (host.reports 6 (.start (Image.link program) [] ⟨1, 1024, 32, 4⟩) ()))
    (joined [] (host.reports 1 (.start (Image.link program) [] ⟨1000, 1024, 32, 4⟩) ())) at h
  rw [hslow, hfast] at h
  rcases h with h | h <;> exact absurd (List.cons_prefix_cons.1 h).1 (by decide)

end Draining

end TickScript
