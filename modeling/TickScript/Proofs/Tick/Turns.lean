import TickScript.Tick

/-!
# Turns in a row

A host gives a program one turn after the other, and what holds of every report follows from what one
turn keeps.
-/

namespace TickScript

variable {κ : Type}

/-- What the owner of a program reads of a turn's end: the report of a failure, unless the program had
failed before. -/
def Outcome.report (hadFailed : Bool) : Outcome → List String
  | .faulted f => if hadFailed then [] else f.report
  | _ => []

namespace Registry

/-- What a turn does with its next step. -/
theorem drive_eq (r : Registry κ) (m : Machine) (c : κ) :
    r.drive m c =
      match m.step with
      | (m', .running) => r.drive m' c
      | (m', .request id args) =>
        match r.answer m' c id args with
        | (.ok _, m'', c') => r.drive m'' c'
        | (.error f, m'', c') => (.faulted f, m'', c')
      | (m', .yielded) => (.yielded, m', c)
      | (m', .budgetSpent) => (.suspended, m', c)
      | (m', .complete) => (.completed, m', c)
      | (m', .fault f) => (.faulted f, m', c) := by
  rw [drive]
  split
  · next h => rw [h]
  · next m' id args h =>
    rw [h]
    dsimp only
    split
    · next h' => rw [h']
    · next h' => rw [h']
  all_goals next h => rw [h]

/-- A turn without its bookkeeping: the lines of the log, with the report of a failure after them. -/
theorem runTick_eq (r : Registry κ) (m : Machine) (c : κ) :
    r.runTick m c =
      (⟨(r.drive m.startTick c).1,
          (r.drive m.startTick c).2.1.log ++ (r.drive m.startTick c).1.report m.fault?.isSome⟩,
        { (r.drive m.startTick c).2.1 with log := [] }, (r.drive m.startTick c).2.2) := by
  unfold runTick
  simp only [Machine.drainLog]
  cases (r.drive m.startTick c).1 with
  | faulted f => cases m.fault?.isSome <;> simp [Outcome.report]
  | _ => simp [Outcome.report]

/-- What so many turns in a row report. -/
def reports (r : Registry κ) : Nat → Machine → κ → List TickReport
  | 0, _, _ => []
  | n + 1, m, context =>
    let (report, m', context') := r.runTick m context
    report :: reports r n m' context'

variable {r : Registry κ}

/-- What a turn keeps holds of the reports of any number of turns. -/
theorem reports_induction {P : Machine → Prop} {Q : TickReport → Prop}
    (h : ∀ m c, P m → P (r.runTick m c).2.1 ∧ Q (r.runTick m c).1) (n : Nat) (m : Machine) (c : κ)
    (hm : P m) : ∀ report ∈ r.reports n m c, Q report := by
  induction n generalizing m c with
  | zero =>
    intro report hr
    exact nomatch hr
  | succ n ih =>
    intro report hr
    rcases List.mem_cons.1 hr with rfl | hr
    · exact (h m c hm).2
    · exact ih _ _ (h m c hm).1 report hr

end Registry

end TickScript
