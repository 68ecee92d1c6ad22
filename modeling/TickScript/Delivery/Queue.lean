import TickScript.Delivery

/-!
# The compilation queue

Scripts are compiled in the background. Someone who submits a request first gets a task with a number of
its own, and then sends the request into a channel as a job. Workers take jobs from the channel in order,
compile them and set the status of their tasks. The owner of a queue closes it when nobody is submitting.
A closed queue accepts nothing more: its workers finish what is left and stop, and the owner waits for one
after the other to stop.

The queue is a transition system: `step` says what each event does, and in which states it can
happen. Submitters and workers act in any order between each other.
-/

namespace TickScript

/-- What is needed to compile a script. -/
structure CompileRequest where
  files : List SourceFile
  features : FeatureSet
  builtins : List (Signature String)
deriving Repr, DecidableEq

/-- What compiling the requested script comes to. -/
def CompileRequest.delivery (r : CompileRequest) : Delivery :=
  .ofResult (compile r.files r.features r.builtins)

/-- How far a task has come. -/
inductive TaskStatus where
  | waiting
  | inProgress
  | finished (d : Delivery)
deriving Repr, DecidableEq

/-- Whether the task has come to an end. -/
def TaskStatus.isFinished : TaskStatus → Bool
  | .finished _ => true
  | _ => false

/-- What the task has come to, once it has come to an end. -/
def TaskStatus.delivery? : TaskStatus → Option Delivery
  | .finished d => some d
  | _ => none

/-- What a submitter knows of its request. -/
structure Task where
  id : Nat
  request : CompileRequest
  status : TaskStatus

/-- A request on its way to a worker, with the number of its task. -/
structure Job where
  task : Nat
  request : CompileRequest
deriving Repr, DecidableEq

/-- What a worker is doing: it waits, has taken a job, compiles one, or has stopped. -/
inductive Worker where
  | idle
  | taken (job : Job)
  | compiling (job : Job)
  | stopped
deriving Repr, DecidableEq

/-- The tasks in the order of their numbers, the jobs that are about to be sent, those that no worker has
taken yet, the workers, and how many of them the owner has seen stop. -/
structure Queue where
  isOpen : Bool
  tasks : List Task
  drafts : List Job
  channel : List Job
  workers : List Worker
  joined : Nat

/-- What can happen to a queue. Workers are named by their place, and so are those who have a number for
their request and have not sent it. -/
inductive QueueEvent where
  | submit (r : CompileRequest)
  | send (submitter : Nat)
  | take (worker : Nat)
  | begin (worker : Nat)
  | finish (worker : Nat)
  | leave (worker : Nat)
  | close
  | join

namespace Queue

/-- An open queue without tasks. It has one worker at least. -/
def start (workers : Nat) : Queue := ⟨true, [], [], [], List.replicate (max workers 1) .idle, 0⟩

/-- Whether the owner has closed the queue and has seen all workers stop. -/
def isOver (q : Queue) : Bool := !q.isOpen && q.joined == q.workers.length

/-- Sets the status of a task. -/
def setStatus (q : Queue) (id : Nat) (s : TaskStatus) : Queue :=
  { q with tasks := q.tasks.map fun t => if t.id = id then { t with status := s } else t }

/-- Says what a worker is doing. -/
def setWorker (q : Queue) (w : Nat) (state : Worker) : Queue :=
  { q with workers := q.workers.set w state }

/-- What an event does to a queue in which it can happen. -/
def step (q : Queue) : QueueEvent → Option Queue
  | .submit r =>
    if q.isOpen then
      let id := q.tasks.length + 1
      some { q with tasks := q.tasks ++ [⟨id, r, .waiting⟩], drafts := q.drafts ++ [⟨id, r⟩] }
    else none
  | .send s =>
    match q.drafts[s]? with
    | some job => some { q with drafts := q.drafts.eraseIdx s, channel := q.channel ++ [job] }
    | none => none
  | .take w =>
    match q.workers[w]?, q.channel with
    | some .idle, job :: channel => some ({ q with channel }.setWorker w (.taken job))
    | _, _ => none
  | .begin w =>
    match q.workers[w]? with
    | some (.taken job) => some ((q.setStatus job.task .inProgress).setWorker w (.compiling job))
    | _ => none
  | .finish w =>
    match q.workers[w]? with
    | some (.compiling job) =>
      some ((q.setStatus job.task (.finished job.request.delivery)).setWorker w .idle)
    | _ => none
  | .leave w =>
    match q.workers[w]?, q.channel with
    | some .idle, [] => if q.isOpen then none else some (q.setWorker w .stopped)
    | _, _ => none
  | .close =>
    -- Whoever submits shares the queue, and only one who owns it alone can close it.
    if q.isOpen && q.drafts.isEmpty then some { q with isOpen := false } else none
  | .join =>
    match q.workers[q.joined]? with
    | some .stopped => some { q with joined := q.joined + 1 }
    | _ => none

/-- What a list of events does to a queue, as far as they can happen. -/
def run (q : Queue) (events : List QueueEvent) : Queue :=
  events.foldl (fun q e => (q.step e).getD q) q

/-- The events by which the first worker serves a number of jobs. -/
def serving (jobs : Nat) : List QueueEvent :=
  (List.replicate jobs [.take 0, .begin 0, .finish 0]).flatten

/-- The queue after all that waits in it has been sent and served. -/
def drained (q : Queue) : Queue :=
  let q := q.run (List.replicate q.drafts.length (.send 0))
  q.run (serving q.channel.length)

end Queue

end TickScript
