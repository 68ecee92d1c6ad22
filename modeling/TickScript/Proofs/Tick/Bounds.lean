import TickScript.Proofs.Tick.Unfolding

/-!
# Turns are bounded

A turn is a row of steps with the answers of the host between them. Nothing in a program can make the row
long: a step after which the turn goes on has taken something off the budget, be it a loop with nothing
in it, the end of a body or a call that costs nothing. So a turn has at most one step more than its
budget has instructions, and the last step it can pay for is the only one that can overdraw the budget.

The bound asks little of the host. It may do whatever it likes with the machine it answers, as long as it
leaves the program, the limits and the count alone. The functions of a registry cannot do otherwise.
-/

namespace TickScript

variable {κ : Type}

/-- A turn that was given the instructions of a tick kept to its bounds: it made at most one step more
than there are instructions, called the host at most once for each of them, and overdrew its budget at
most by what its last paid step cost. The count of instructions fits 64 bits after every step. -/
structure Machine.WithinBudget (m : Machine) (made : List (Executed κ)) (m' : Machine) : Prop where
  steps : made.length ≤ m.limits.instructions + 1
  calls : made.countP (·.status.isRequest) ≤ m.limits.instructions
  spent : 1 ≤ m.limits.instructions → m'.spent ≤ m.limits.instructions - 1 + m.image.dearest
  idle : m.limits.instructions = 0 → m'.spent = 0
  counts : ∀ e ∈ made, e.stepped.spent < UInt64.size

namespace Machine

/-- The most that a machine can have spent at the end of a turn. -/
def ceiling (m : Machine) : Nat :=
  if m.limits.instructions = 0 then 0 else m.limits.instructions - 1 + m.image.dearest

/-- What is left of the budget pays for the steps that a turn makes from some moment on, and for its
calls; the count stays under the ceiling. -/
structure Pays (m : Machine) (made : List (Executed κ)) (m' : Machine) : Prop where
  steps : made.length ≤ m.budget + 1
  calls : made.countP (·.status.isRequest) ≤ m.budget
  spent : m'.spent ≤ m.ceiling
  counts : ∀ e ∈ made, e.stepped.spent ≤ m.ceiling

section Steps

variable {m m₁ m₂ m' : Machine} {status : Status} {n : Nat} {c c' : κ}

/-- Charging does not move the ceiling. -/
theorem Charged.ceiling_eq (h : Charged m m' n) : m'.ceiling = m.ceiling := by
  unfold ceiling
  rw [h.image, h.limits]

/-- A step never takes the count past the ceiling. -/
theorem Priced.spent_le (h : Priced m (m₁, status) n) (hm : m.spent ≤ m.ceiling) :
    m₁.spent ≤ m.ceiling := by
  have hspent : m₁.spent = m.spent + n := h.charged.spent
  have hdear := h.le_dearest
  rcases Nat.eq_zero_or_pos n with rfl | hn
  · omega
  · have hlt := h.within hn
    unfold ceiling
    rw [if_neg (by omega)]
    omega

/-- A step after which the turn goes on leaves less of the budget. -/
theorem Priced.budget_lt (h : Priced m (m₁, status) n) (hs : status.goesOn) :
    m₁.budget < m.budget := by
  have hone := h.goesOn hs
  have hwithin := h.within hone
  have hcharged : Charged m m₁ n := h.charged
  rw [hcharged.budget_eq]
  unfold budget
  omega

/-- The last step of a turn is paid for if it is a call. -/
theorem Priced.pays_last (h : Priced m (m₁, status) n) (hm : m.spent ≤ m.ceiling)
    (hlast : Charged m₁ m' 0) : Pays m [⟨m₁, status, c, m', c'⟩] m' where
  steps := Nat.le_add_left _ _
  calls := by
    rw [List.countP_cons, List.countP_nil]
    split
    · next hq =>
      have hs : status.goesOn := by
        cases status with
        | request => rfl
        | _ => exact nomatch hq
      have hlt := h.budget_lt hs
      omega
    · exact Nat.zero_le _
  spent := by
    rw [hlast.spent]
    exact h.spent_le hm
  counts := by
    intro e he
    rw [List.mem_singleton.1 he]
    exact h.spent_le hm

/-- A step after which the turn goes on pays for itself. -/
theorem Priced.pays_cons {made : List (Executed κ)} (h : Priced m (m₁, status) n)
    (hm : m.spent ≤ m.ceiling) (hs : status.goesOn) (hfree : Charged m₁ m₂ 0)
    (hrest : Pays m₂ made m') : Pays m (⟨m₁, status, c, m₂, c'⟩ :: made) m' := by
  have hlt := h.budget_lt hs
  have hbudget : m₂.budget = m₁.budget := hfree.budget_eq
  have hceiling : m₂.ceiling = m.ceiling := (h.charged.trans hfree).ceiling_eq
  have hsteps := hrest.steps
  have hcalls := hrest.calls
  refine ⟨?_, ?_, hceiling ▸ hrest.spent, ?_⟩
  · rw [List.length_cons]
    omega
  · rw [List.countP_cons]
    split <;> omega
  · intro e he
    rcases List.mem_cons.1 he with rfl | he
    · exact h.spent_le hm
    · exact hceiling ▸ hrest.counts e he

end Steps

end Machine

/-! ## Turns -/

namespace Unfolds

variable {answer : Answering κ} {m m' : Machine} {c c' : κ} {made : List (Executed κ)} {outcome : Outcome}

/-- The budget pays for the whole of a turn. -/
theorem pays (ha : answer.Unmetered) (h : Unfolds answer m c made outcome m' c')
    (hm : m.spent ≤ m.ceiling) : m.Pays made m' := by
  induction h with
  | @goes m m₁ m' c c' made outcome step rest ih =>
    obtain ⟨n, hpriced⟩ := m.exists_priced_step
    rw [step] at hpriced
    have hle : m₁.spent ≤ m₁.ceiling := hpriced.charged.ceiling_eq ▸ hpriced.spent_le hm
    exact hpriced.pays_cons hm rfl (.free rfl rfl rfl) (ih hle)
  | @answered m m₁ m₂ m' c c₂ c' id args u made outcome step reply rest ih =>
    obtain ⟨n, hpriced⟩ := m.exists_priced_step
    rw [step] at hpriced
    have hfree := ha m₁ c id args
    rw [reply] at hfree
    have hle : m₂.spent ≤ m₂.ceiling := by
      rw [(hpriced.charged.trans hfree).ceiling_eq, hfree.spent]
      exact hpriced.spent_le hm
    exact hpriced.pays_cons hm rfl hfree (ih hle)
  | @refused m m₁ m' c c' id args f step reply =>
    obtain ⟨n, hpriced⟩ := m.exists_priced_step
    rw [step] at hpriced
    have hfree := ha m₁ c id args
    rw [reply] at hfree
    exact hpriced.pays_last hm hfree
  | @ends m m' c status outcome step last =>
    obtain ⟨n, hpriced⟩ := m.exists_priced_step
    rw [step] at hpriced
    exact hpriced.pays_last hm (.free rfl rfl rfl)

/-- A turn that starts with nothing spent keeps to its bounds. -/
theorem withinBudget (ha : answer.Unmetered)
    (h : Unfolds answer m.startTick c made outcome m' c')
    (hl : m.limits.instructions ≤ UInt64.size - UInt32.size) : m.WithinBudget made m' := by
  obtain ⟨hsteps, hcalls, hspent, hcounts⟩ := h.pays ha (Nat.zero_le _)
  have hdear := m.image.dearest_lt
  have hceiling : m.startTick.ceiling =
      if m.limits.instructions = 0 then 0 else m.limits.instructions - 1 + m.image.dearest := rfl
  rw [hceiling] at hspent hcounts
  refine ⟨hsteps, hcalls, ?_, ?_, ?_⟩
  · intro hone
    rwa [if_neg (by omega)] at hspent
  · intro hzero
    rw [if_pos hzero] at hspent
    exact Nat.le_zero.1 hspent
  · intro e he
    have hle := hcounts e he
    have hword : UInt32.size ≤ UInt64.size := by decide
    split at hle <;> omega

end Unfolds

/-! ## The turns of a registry -/

namespace Registry

/-- **A turn is bounded.** Whatever state a machine is in and whatever its program is, its turn comes to
an end, under every host that leaves the count alone, after at most one step more than it has
instructions and with at most as many calls of the host. The count ends below the budget plus the cost of
the dearest step, and never leaves its 64 bits. What `runTick` does is that turn. -/
theorem runTick_bounded (m : Machine) (hl : m.limits.instructions ≤ UInt64.size - UInt32.size) (c : κ) :
    (∀ answer : Answering κ, answer.Unmetered →
      ∃ made outcome m' c', Unfolds answer m.startTick c made outcome m' c' ∧
        m.WithinBudget made m') ∧
    ∀ r : Registry κ, ∃ made m',
      Unfolds r.answer m.startTick c made (r.runTick m c).1.outcome m' (r.runTick m c).2.2 ∧
        (r.runTick m c).2.1 = { m' with log := [] } ∧
        m.WithinBudget made (r.runTick m c).2.1 := by
  constructor
  · intro answer ha
    obtain ⟨made, outcome, m', c', h⟩ := exists_unfolds ha m.startTick c
    exact ⟨made, outcome, m', c', h, h.withinBudget ha hl⟩
  · intro r
    have h := r.unfolds_drive m.startTick c
    have hbounds := h.withinBudget r.unmetered_answer hl
    rw [runTick_eq]
    exact ⟨_, _, h, rfl, hbounds.steps, hbounds.calls, hbounds.spent, hbounds.idle, hbounds.counts⟩

/-- A host with one function, which costs nothing. -/
def pollable : Registry Unit := ⟨[.ofResult "poll" 0 0 fun _ _ => .ok .null]⟩

/-- A program that calls the function of that host over and over. -/
def polling : Machine :=
  .start ⟨["poll"], [], ⟨[⟨0, 0, 0⟩], [], [], [.loop [.callBuiltin 0, .discard]]⟩⟩ [] .least

/-- Calls that cost nothing do not make a turn longer than its budget. -/
theorem runTick_bounded_polling :
    polling.limits.instructions = 1000 ∧
      ∃ made m', Unfolds pollable.answer polling.startTick () made
          (pollable.runTick polling ()).1.outcome m' () ∧
        polling.WithinBudget made (pollable.runTick polling ()).2.1 := by
  obtain ⟨made, m', h, -, hbounds⟩ := (runTick_bounded polling (by decide) ()).2 pollable
  exact ⟨rfl, made, m', h, hbounds⟩

end Registry

end TickScript
