import TickScript.Machine

/-!
# Functions of the host

A host offers functions to programs, in modules, and registers the modules with a registry. The
registry numbers the functions in the order in which their names are first registered. Registering a
name again replaces the function and keeps the number, so a module may put its own in place of an
earlier one.

A function of the host may look at all of the machine that calls it. It changes the heap, the log and
what the host keeps for itself. The arguments are lent to it: what it keeps of them it counts a
reference for. A host that serves its programs without a registry may do more, and change the machine
as it likes (`Service`).
-/

namespace TickScript

/-- What a call of a function of the host comes to: the result or the failure of the program, and the
heap, the log and the host's own data as the function leaves them. -/
structure Reply (κ : Type) where
  result : Except Fault Value
  heap : Heap
  log : List String
  context : κ

/-- The reply of a function that changes nothing. -/
def Machine.reply {κ : Type} (m : Machine) (result : Except Fault Value) (context : κ) : Reply κ :=
  ⟨result, m.heap, m.log, context⟩

/-- A function that a host offers. -/
structure Builtin (κ : Type) where
  name : String
  arity : UInt32
  cost : UInt32
  run : List Value → Machine → κ → Reply κ

namespace Builtin

variable {κ : Type}

/-- What a program knows of the function. -/
def signature (b : Builtin κ) : Signature String := ⟨b.name, b.arity, b.cost⟩

/-- Runs the function for a machine, and takes the lent arguments back. -/
def serve (b : Builtin κ) (m : Machine) (context : κ) (args : List Value) :
    Except Fault Value × Machine × κ :=
  let reply := b.run args m context
  (reply.result, { m with heap := reply.heap.release args, log := reply.log }, reply.context)

/-- A function that only looks at its arguments and the machine, and changes nothing. -/
def ofResult (name : String) (arity cost : UInt32)
    (result : Machine → List Value → Except Fault Value) : Builtin κ :=
  ⟨name, arity, cost, fun args m context => m.reply (result m args) context⟩

end Builtin

/-- A named group of functions that a host offers. -/
structure Module (κ : Type) where
  name : String
  builtins : List (Builtin κ)

/-- The functions that a host offers, by number. -/
structure Registry (κ : Type) where
  builtins : List (Builtin κ)

namespace Registry

variable {κ : Type}

/-- The registry without functions. -/
def empty : Registry κ := ⟨[]⟩

/-- The number of the function with a name. -/
def id? (r : Registry κ) (name : String) : Option Nat := r.builtins.findIdx? fun b => b.name == name

/-- The function with a name. -/
def get? (r : Registry κ) (name : String) : Option (Builtin κ) :=
  r.builtins.find? fun b => b.name == name

/-- Registers a function. -/
def insert (r : Registry κ) (b : Builtin κ) : Registry κ :=
  match r.id? b.name with
  | some id => ⟨r.builtins.set id b⟩
  | none => ⟨r.builtins ++ [b]⟩

/-- Registers the functions of a module. -/
def addModule (r : Registry κ) (m : Module κ) : Registry κ := m.builtins.foldl insert r

/-- Registers several modules, one after the other. -/
def ofModules (modules : List (Module κ)) : Registry κ := modules.foldl addModule empty

/-- What programs know of the functions. -/
def signatures (r : Registry κ) : List (Signature String) := r.builtins.map Builtin.signature

/-- The function that a program means by a number: its name in the program must be the name it is
registered by. -/
def meant? (r : Registry κ) (image : Image) (id : UInt32) : Option (Builtin κ) :=
  match r.builtins[id.toNat]? with
  | some b => if image.builtinName? id = some b.name then some b else none
  | none => none

/-- Runs the function that a machine asks for. -/
def dispatch (r : Registry κ) (m : Machine) (context : κ) (id : UInt32) (args : List Value) :
    Except Fault Value × Machine × κ :=
  match r.meant? m.image id with
  | none => (.error (m.faultOf .badBuiltin none), { m with heap := m.heap.release args }, context)
  | some b => b.serve m context args

end Registry

/-- How a host serves the calls of its programs: what a call comes to, and the machine and the host's own
data after it. -/
abbrev Service (κ : Type) := Machine → κ → UInt32 → List Value → Except Fault Value × Machine × κ

/-- How a host answers the calls of its programs: whether the program goes on, and the machine and the
host's own data after the call. -/
abbrev Answering (κ : Type) := Machine → κ → UInt32 → List Value → Except Fault Unit × Machine × κ

/-- Hands a machine what the call that it waits for came to. A failure ends the program, unless it has
failed by then. -/
def Machine.settle (m : Machine) : Except Fault Value → Except Fault Unit × Machine
  | .ok v => m.pushResult v
  | .error f => (.error f, if m.fault?.isSome then m else m.fail f)

/-- What a call came to changes neither the program nor the limits and the count. -/
theorem Machine.settle_unspent (m : Machine) (result : Except Fault Value) :
    (m.settle result).2.image = m.image ∧ (m.settle result).2.limits = m.limits ∧
      (m.settle result).2.spent = m.spent := by
  cases result with
  | ok v =>
    obtain ⟨-, h⟩ | ⟨-, h⟩ := m.pushResult_cases v
    all_goals rw [settle, h]; exact ⟨rfl, rfl, rfl⟩
  | error f =>
    simp only [settle]
    split <;> exact ⟨rfl, rfl, rfl⟩

/-- Serves the call that a machine waits for, and hands it what the call came to. -/
def Service.answer {κ : Type} (s : Service κ) : Answering κ := fun m context id args =>
  let (served, m, context) := s m context id args
  let (result, m) := m.settle served
  (result, m, context)

namespace Registry

variable {κ : Type}

/-- Answers the call that a machine waits for by the functions of the registry. -/
def answer (r : Registry κ) : Answering κ := Service.answer r.dispatch

/-- Running a function leaves the program, the limits and the count alone. -/
theorem dispatch_unspent (r : Registry κ) (m : Machine) (context : κ) (id : UInt32)
    (args : List Value) :
    (r.dispatch m context id args).2.1.image = m.image ∧
      (r.dispatch m context id args).2.1.limits = m.limits ∧
      (r.dispatch m context id args).2.1.spent = m.spent := by
  unfold dispatch
  split <;> exact ⟨rfl, rfl, rfl⟩

/-- Answering a call spends nothing and changes no limit. -/
theorem answer_unspent (r : Registry κ) (m : Machine) (context : κ) (id : UInt32)
    (args : List Value) :
    (r.answer m context id args).2.1.limits = m.limits ∧
      (r.answer m context id args).2.1.spent = m.spent := by
  obtain ⟨-, hlimits, hspent⟩ := r.dispatch_unspent m context id args
  obtain ⟨-, hlimits', hspent'⟩ :=
    (r.dispatch m context id args).2.1.settle_unspent (r.dispatch m context id args).1
  exact ⟨hlimits'.trans hlimits, hspent'.trans hspent⟩

end Registry

end TickScript
