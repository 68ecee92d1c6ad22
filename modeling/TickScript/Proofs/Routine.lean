/-!
# Routines

A routine moves through a state, may fail, and need not end: a loop in it runs until something comes,
and that may never come. A failure leaves a state behind, like a result.

Nothing in a routine says why it should end. One that calls itself, be it for the next round of a loop, is
told how many calls may be inside each other, and comes to nothing where there are more of them
(`Routine.cutShort`). So a run that goes on forever comes to nothing whatever it is told. That a run ends
is a theorem: it comes to the same outcome whenever it is told enough (`Routine.Ends`). The theorem is put
together from what the steps of the run do (`Routine.Ends.bind`), and no step has to say how much is enough.
-/

namespace TickScript

/-- A computation over a state that may fail, and that may come to nothing. -/
abbrev Routine (σ ε α : Type) := ExceptT ε (StateT σ Option) α

namespace Routine

variable {σ ε α β : Type}

/-- The outcome of a run, if it comes to one: a result or a failure, and the state that is left. -/
def outcome (m : Routine σ ε α) (s : σ) : Option (Except ε α × σ) := m.run.run s

/-- The run that needs one call more than it may make. -/
def cutShort : Routine σ ε α := show StateT σ Option (Except ε α) from fun _ => none

/-- The run from a state ends: it comes to an outcome, the same with any number of calls that is great
enough. The outcome is as stated. -/
def Ends (m : Nat → Routine σ ε α) (s : σ) (P : Except ε α → σ → Prop) : Prop :=
  ∃ r s', (∃ enough, ∀ n ≥ enough, (m n).outcome s = some (r, s')) ∧ P r s'

namespace Ends

variable {m : Nat → Routine σ ε α} {f : Nat → α → Routine σ ε β} {s : σ} {P P' : Except ε α → σ → Prop}
  {Q : Except ε β → σ → Prop}

theorem mono (h : Ends m s P) (hP : ∀ r s', P r s' → P' r s') : Ends m s P' := by
  obtain ⟨r, s', hm, hr⟩ := h
  exact ⟨r, s', hm, hP r s' hr⟩

/-- A run that makes no calls. -/
theorem of_outcome {r : Except ε α} {s' : σ} (h : ∀ n, (m n).outcome s = some (r, s')) (hr : P r s') :
    Ends m s P :=
  ⟨r, s', ⟨0, fun n _ => h n⟩, hr⟩

theorem pure {a : α} (h : P (.ok a) s) : Ends (fun _ => Pure.pure a) s P := of_outcome (fun _ => rfl) h

theorem throw {e : ε} (h : P (.error e) s) : Ends (fun _ => MonadExcept.throw e) s P :=
  of_outcome (fun _ => rfl) h

/-- Looking at the state leaves it. -/
theorem get_bind {f : Nat → σ → Routine σ ε α} (h : Ends (fun n => f n s) s P) :
    Ends (fun n => get >>= f n) s P := h

/-- A call of a routine that ends, if what it does with one call less ends. -/
theorem call (h : Ends (fun n => m (n + 1)) s P) : Ends m s P := by
  obtain ⟨r, s', ⟨enough, hm⟩, hr⟩ := h
  refine ⟨r, s', ⟨enough + 1, fun n hn => ?_⟩, hr⟩
  obtain ⟨n, rfl⟩ : ∃ k, n = k + 1 := ⟨n - 1, by omega⟩
  exact hm n (by omega)

/-- A chain of two routines ends if the first one does and, should it give a result, the second one does
after it. -/
theorem bind (h : Ends m s P) (hok : ∀ a s', P (.ok a) s' → Ends (fun n => f n a) s' Q)
    (herror : ∀ e s', P (.error e) s' → Q (.error e) s') : Ends (fun n => m n >>= f n) s Q := by
  obtain ⟨r, s', ⟨enough, hm⟩, hr⟩ := h
  -- The chain does after the first routine what its outcome says.
  have hchain : ∀ n ≥ enough, (m n >>= f n).outcome s =
      match r with
      | .ok a => (f n a).outcome s'
      | .error e => some (.error e, s') := by
    intro n hn
    change ((m n).outcome s).bind _ = _
    rw [hm n hn]
    cases r <;> rfl
  cases r with
  | ok a =>
    obtain ⟨r', s'', ⟨enough', hf⟩, hr'⟩ := hok a s' hr
    refine ⟨r', s'', ⟨max enough enough', fun n hn => ?_⟩, hr'⟩
    rw [hchain n (by omega)]
    exact hf n (by omega)
  | error e => exact ⟨.error e, s', ⟨enough, hchain⟩, herror e s' hr⟩

end Ends

end Routine

end TickScript
