import TickScript.Diagnostic
import TickScript.Heap
import TickScript.Image.Decode

/-!
# The machine

A machine runs one program, a step at a time. Its control is a stack of frames, one for each body
that has been entered and not yet left; the frame on top says what comes next. Operands and locals
are stacks shared by all frames: a frame remembers how many locals there were when it was entered,
and leaving it drops those made since.

A machine stops for good when its program ends or fails. It stops for a while when it waits for the
next tick, when the instructions of the tick are spent, and when it waits for its host to answer a
call.
-/

namespace TickScript

/-- What a program may use up: instructions a tick, bytes of memory, calls inside each other, and
values in a tuple. -/
structure Limits where
  instructions : Nat
  memory : Nat
  callDepth : Nat
  tupleSize : Nat
deriving Repr, DecidableEq

namespace Limits

/-- The limits of the smallest processor. -/
def least : Limits := ⟨1000, 1024, 32, 4⟩

/-- The length of the longest array that the memory could hold. -/
def arraySize (l : Limits) : Nat := l.memory / valueSize

end Limits

/-- What a frame runs: the body of the program, of a function, of a loop, of a loop that waits for
ticks, or of a branch. -/
inductive FrameKind where
  | top
  | function
  | loop
  | tick
  | branch
deriving Repr, DecidableEq

/-- A body that has been entered: the whole of it, what is left of this pass, and how many locals
there were before it. -/
structure Frame where
  kind : FrameKind
  body : List Op
  rest : List Op
  base : Nat
deriving Repr

/-- Whether a machine can go on. -/
inductive Phase where
  | running
  | awaiting
  | complete
  | faulted (f : Fault)
deriving Repr, DecidableEq

/-- A machine with its program, its limits and all that changes as it runs. Stacks are listed from
the top. -/
structure Machine where
  image : Image
  shapes : List (List String)
  limits : Limits
  heap : Heap
  operands : List Value
  locals : List Value
  globals : List Value
  frames : List Frame
  calls : List CallSite
  location : Location
  spent : Nat
  log : List String
  phase : Phase
deriving Repr

/-- What a step came to: the machine can go on, waits for the next tick, is complete, has spent its
instructions, has failed, or waits for its host to answer a call. -/
inductive Status where
  | running
  | yielded
  | complete
  | budgetSpent
  | fault (f : Fault)
  | request (builtin : UInt32) (args : List Value)
deriving Repr

namespace Machine

/-- The fault of a program that cannot be loaded. -/
def unloadable (detail : String) : Fault :=
  ⟨.malformedProgram, ⟨0, Location.noFile⟩, some detail, []⟩

/-- A machine at the start of an image's program. -/
def start (image : Image) (shapes : List (List String)) (limits : Limits) : Machine where
  image := image
  shapes := shapes
  limits := limits
  heap := .empty
  operands := []
  locals := []
  globals := List.replicate image.program.globals.length .null
  frames := [⟨.top, image.program.body, image.program.body, 0⟩]
  calls := []
  location := ⟨0, Location.noFile⟩
  spent := 0
  log := []
  phase := .running

/-- A machine at the start of a stored program. Object shapes must name texts of the image; all other
numbers are checked when they are used. -/
def load (bytes : List UInt8) (limits : Limits) : Except Fault Machine :=
  match Image.decode bytes with
  | .error damage => .error (unloadable damage.text)
  | .ok image =>
    match image.shapes.mapM (fun names => names.mapM image.text?) with
    | none => .error (unloadable "shape references a missing string")
    | some shapes => .ok (start image shapes limits)

/-- The bytes in use: those charged to the heap, and one value for each operand, local and global. -/
def usedMemory (m : Machine) : Nat :=
  m.heap.used + valueSize * (m.operands.length + m.locals.length + m.globals.length)

/-- Whether the program has ended. -/
def isComplete (m : Machine) : Bool := m.phase = .complete

/-- Why the program failed, if it did. -/
def fault? (m : Machine) : Option Fault :=
  match m.phase with
  | .faulted f => some f
  | _ => none

/-- A fault at the current place with the active calls. -/
def faultOf (m : Machine) (cause : Cause) (detail : Option String) : Fault :=
  ⟨cause, m.location, detail, m.calls⟩

/-- Stops the program for good. -/
def fail (m : Machine) (f : Fault) : Machine := { m with phase := .faulted f }

/-- Gives the program a new tick's instructions. -/
def startTick (m : Machine) : Machine := { m with spent := 0 }

/-- Adds a line to the log. -/
def addLine (m : Machine) (line : String) : Machine := { m with log := m.log ++ [line] }

/-- The lines of the log, and the machine without them. -/
def drainLog (m : Machine) : List String × Machine := (m.log, { m with log := [] })

/-- The value of the first global with a name. -/
def global? (m : Machine) (name : String) : Option Value := do
  let slot ← m.image.program.globals.findIdx? fun id => m.image.text? id == some name
  m.globals[slot]?

/-- The names of the globals in order, without those whose number is bad. -/
def globalNames (m : Machine) : List String := m.image.program.globals.filterMap m.image.text?

/-- Answers the call that the machine waits for. A machine that waits for none fails. -/
def pushResult (m : Machine) (v : Value) : Except Fault Unit × Machine :=
  match m.phase with
  | .awaiting => (.ok (), { m with operands := v :: m.operands, phase := .running })
  | _ =>
    let f := m.faultOf .noCallPending none
    (.error f, { m.fail f with heap := m.heap.release [v] })

/-- An answer is either the result of the call that the machine waits for, or it makes the machine fail. -/
theorem pushResult_cases (m : Machine) (v : Value) :
    (m.phase = .awaiting ∧
      m.pushResult v = (.ok (), { m with operands := v :: m.operands, phase := .running })) ∨
    (m.phase ≠ .awaiting ∧ m.pushResult v = (.error (m.faultOf .noCallPending none),
      { m with heap := m.heap.release [v], phase := .faulted (m.faultOf .noCallPending none) })) := by
  unfold pushResult
  split
  · next hp => exact .inl ⟨hp, rfl⟩
  · next hp => exact .inr ⟨hp, rfl⟩

/-- A machine that waits takes the answer for the result of its call. -/
theorem pushResult_of_awaiting {m : Machine} (h : m.phase = .awaiting) (v : Value) :
    m.pushResult v = (.ok (), { m with operands := v :: m.operands, phase := .running }) := by
  obtain ⟨-, hanswer⟩ | ⟨hp, -⟩ := m.pushResult_cases v
  · exact hanswer
  · exact absurd h hp

/-- A machine that waits for nothing fails on an answer. -/
theorem pushResult_of_not_awaiting {m : Machine} (h : m.phase ≠ .awaiting) (v : Value) :
    m.pushResult v = (.error (m.faultOf .noCallPending none),
      { m with heap := m.heap.release [v], phase := .faulted (m.faultOf .noCallPending none) }) := by
  obtain ⟨hp, -⟩ | ⟨-, hanswer⟩ := m.pushResult_cases v
  · exact absurd hp h
  · exact hanswer

end Machine

end TickScript
