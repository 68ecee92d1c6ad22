import Mathlib.Algebra.GroupWithZero.Nat
import TickScript.Proofs.Delivery.Accounts

/-!
# What becomes of submitted requests

Nothing that is submitted to a queue is lost, doubled or mixed up (`Queue.nothing_lost`). The accounts of the
queue say so while it works. A queue that is closed comes to its end: its workers stop when the channel is
empty (`Queue.Closing`), only so many events can still happen (`Queue.rank`), and something can happen until
the owner has seen all workers stop. When it is over, no job is left, so every task is finished.
-/

namespace TickScript

/-- How many events a worker can still take part in, but for the jobs in the channel. -/
def Worker.rank : Worker → Nat
  | .idle => 1
  | .taken _ => 3
  | .compiling _ => 2
  | .stopped => 0

namespace Queue

variable {q q' : Queue} {e : QueueEvent}

/-! ## Closing -/

/-- A closed queue has no submitters, its workers stop when the channel is empty, and the owner has seen the
first of them stop. -/
structure Closing (q : Queue) : Prop where
  staffed : q.workers ≠ []
  drafts : q.isOpen = false → q.drafts = []
  stopped : Worker.stopped ∈ q.workers → q.isOpen = false ∧ q.channel = []
  joined : ∀ w < q.joined, q.workers[w]? = some .stopped

namespace Closing

theorem start (workers : Nat) : (start workers).Closing where
  staffed := by simp [Queue.start]
  drafts := fun _ => rfl
  stopped := fun h => nomatch (List.mem_replicate.1 h).2
  joined := fun _ hw => nomatch hw

/-- A worker may stop only when the queue is closed and nothing is on its way. -/
theorem setWorker (h : q.Closing) {w : Nat} {x y : Worker} (hw : q.workers[w]? = some x)
    (hx : x ≠ .stopped) (hy : y = .stopped → q.isOpen = false ∧ q.channel = []) :
    (q.setWorker w y).Closing where
  staffed := fun hnil => h.staffed ((List.set_eq_nil_iff _ _).1 hnil)
  drafts := h.drafts
  stopped := by
    intro hs
    rcases List.mem_or_eq_of_mem_set hs with hs | hs
    · exact h.stopped hs
    · exact hy hs.symm
  joined := by
    intro v hv
    have hstopped := h.joined v hv
    have hne : w ≠ v := by
      rintro rfl
      exact hx (Option.some.inj (hw.symm.trans hstopped))
    exact (List.getElem?_set_ne hne).trans hstopped

end Closing

/-- How many events can still happen to a closed queue. -/
def rank (q : Queue) : Nat :=
  3 * q.channel.length + (q.workers.map Worker.rank).sum + (q.workers.length - q.joined)

end Queue

end TickScript
