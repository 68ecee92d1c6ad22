import TickScript.Machine
import TickScript.Value.Operators

/-!
# Steps

A step runs one instruction, or leaves the body whose instructions are used up. Either costs one
instruction of the tick's budget, and a call of the host costs what its function says. Before that
the limits are looked at: without budget the machine stays as it is, and with more memory in use than
it may have it fails.

An instruction takes its operands before it looks at them. When it fails, what it took is gone and
the rest of the stack stays.
-/

namespace TickScript.Machine

/-- The machine can go on. -/
def go (m : Machine) : Machine × Status := (m, .running)

/-- The machine fails for a cause. -/
def stop (m : Machine) (cause : Cause) : Machine × Status :=
  let f := m.faultOf cause none
  (m.fail f, .fault f)

/-- The machine with what is left of its operands, and without the references to those it dropped. -/
def dropped (m : Machine) (rest : List Value) (vs : List Value) : Machine :=
  { m with operands := rest, heap := m.heap.release vs }

/-- Pushes a value that needs no new reference. -/
def push (m : Machine) (v : Value) : Machine := { m with operands := v :: m.operands }

/-- Pushes a copy of a value that someone else holds. -/
def pushCopy (m : Machine) (v : Value) : Machine :=
  { m with operands := v :: m.operands, heap := m.heap.retain v }

/-- The topmost operands in the order in which they were pushed, and those below. -/
def takeOperands (n : Nat) (operands : List Value) : Option (List Value × List Value) :=
  if n ≤ operands.length then some ((operands.take n).reverse, operands.drop n) else none

/-- The place of an element; there is none before the first. -/
def elementIndex? (i : Int64) : Option Nat :=
  if 0 ≤ i then some i.toInt.toNat else none

/-! ## Frames -/

/-- Drops the locals above the lowest `base`. -/
def truncate (m : Machine) (base : Nat) : Machine :=
  let surplus := m.locals.length - base
  { m with locals := m.locals.drop surplus, heap := m.heap.release (m.locals.take surplus) }

/-- Enters a body. -/
def enter (m : Machine) (kind : FrameKind) (body : List Op) : Machine :=
  { m with frames := ⟨kind, body, body, m.locals.length⟩ :: m.frames }

/-- Goes back to where the latest call was made. -/
def returnToCaller (m : Machine) : Machine :=
  match m.calls with
  | [] => m
  | c :: calls => { m with calls, location := c.location }

/-- Leaves the body on top at its end: a loop starts again, a branch is done, a function gives back
null, and the body of the program ends it. -/
def endFrame (m : Machine) : Machine × Status :=
  match m.frames with
  | [] => m.stop .malformedProgram
  | f :: frames =>
    match f.kind with
    | .top => ({ m with phase := .complete }, .complete)
    | .loop => go { m.truncate f.base with frames := { f with rest := f.body } :: frames }
    | .tick => ({ m.truncate f.base with frames := { f with rest := f.body } :: frames }, .yielded)
    | .branch => go { m.truncate f.base with frames }
    | .function => go ({ m.truncate f.base with frames }.returnToCaller.push .null)

/-- Leaves the branches on top of the given frames. -/
def leaveBranches (m : Machine) : List Frame → Machine
  | [] => { m with frames := [] }
  | f :: frames =>
    if f.kind = .branch then leaveBranches (m.truncate f.base) frames
    else { m with frames := f :: frames }

/-- Leaves the given frames up to the function that they belong to, and says whether there is one. -/
def leaveFunction (m : Machine) : List Frame → Machine × Bool
  | [] => ({ m with frames := [] }, false)
  | f :: frames =>
    match f.kind with
    | .function => ({ m.truncate f.base with frames }, true)
    | .top => ({ m.truncate f.base with frames }, false)
    | _ => leaveFunction (m.truncate f.base) frames

/-- Whether the frame on top is a loop. -/
def atLoop (m : Machine) : Bool :=
  match m.frames with
  | f :: _ => f.kind = .loop || f.kind = .tick
  | [] => false

/-- Ends this pass of the innermost loop. -/
def continueLoop (m : Machine) : Machine × Status :=
  let m := m.leaveBranches m.frames
  if m.atLoop then m.endFrame else m.stop .malformedProgram

/-- Leaves the innermost loop. -/
def breakLoop (m : Machine) : Machine × Status :=
  let m := m.leaveBranches m.frames
  match m.frames with
  | f :: frames =>
    if m.atLoop then go { m.truncate f.base with frames } else m.stop .malformedProgram
  | [] => m.stop .malformedProgram

/-- Gives a value back to the caller of the running function. -/
def giveBack (m : Machine) : Machine × Status :=
  match m.operands with
  | [] => m.stop .missingOperand
  | v :: rest =>
    match ({ m with operands := rest } : Machine).leaveFunction m.frames with
    | (m, true) => go (m.returnToCaller.push v)
    | (m, false) => stop (m.dropped m.operands [v]) .malformedProgram

/-- Calls a function of the program. -/
def call (m : Machine) (id : UInt32) : Machine × Status :=
  match m.image.program.functions[id.toNat]? with
  | none => m.stop .badFunction
  | some f =>
    match m.image.text? f.name with
    | none => m.stop .badString
    | some name =>
      if m.limits.callDepth < m.calls.length + 1 then m.stop .callDepthExceeded
      else go ({ m with calls := ⟨name, m.location⟩ :: m.calls }.enter .function f.body)

/-- Asks the host for the answer to a call. The call itself has been paid for as a step. -/
def callBuiltin (m : Machine) (id : UInt32) : Machine × Status :=
  match m.image.program.builtins[id.toNat]? with
  | none => m.stop .badBuiltin
  | some b =>
    match takeOperands b.arity.toNat m.operands with
    | none => m.stop .missingOperand
    | some (args, rest) =>
      ({ m with operands := rest, spent := m.spent + (b.cost.toNat - 1), phase := .awaiting },
        .request id args)

/-! ## Values -/

/-- Makes a tuple, which may not be too big. -/
def makeTuple (m : Machine) (n : Nat) : Machine × Status :=
  match takeOperands n m.operands with
  | none => m.stop .missingOperand
  | some (items, rest) =>
    let (v, heap) := m.heap.tuple items
    let m := { m with operands := rest, heap }
    if m.limits.tupleSize < v.flatSize then stop (m.dropped rest [v]) .tupleTooBig
    else go (m.push v)

/-- Makes an object of a shape. -/
def makeObject (m : Machine) (shape : UInt32) : Machine × Status :=
  match m.shapes[shape.toNat]? with
  | none => m.stop .badShape
  | some names =>
    match takeOperands names.length m.operands with
    | none => m.stop .missingOperand
    | some (values, rest) =>
      let (v, heap) := m.heap.object names values
      go ({ m with operands := rest, heap }.push v)

/-- Makes an array, which may not be too big. -/
def makeArray (m : Machine) (n : Nat) : Machine × Status :=
  if m.limits.arraySize < n then m.stop .arrayTooBig
  else
    match takeOperands n m.operands with
    | none => m.stop .missingOperand
    | some (items, rest) =>
      let (v, heap) := m.heap.array items
      go ({ m with operands := rest, heap }.push v)

/-- Replaces the operand on top, which is dropped, by a part of it. -/
def replaceTop (m : Machine) (v : Value) (rest : List Value) (part : Value) : Machine :=
  { m with operands := part :: rest, heap := (m.heap.retain part).release [v] }

/-- Replaces a tuple by one of its items. -/
def tupleMember (m : Machine) (i : Nat) : Machine × Status :=
  match m.operands with
  | [] => m.stop .missingOperand
  | v :: rest =>
    match v with
    | .tuple _ _ items =>
      match items[i]? with
      | some part => go (m.replaceTop v rest part)
      | none => stop (m.dropped rest [v]) .tupleIndexOutOfBounds
    | _ => stop (m.dropped rest [v]) .notTuple

/-- Replaces an object by one of its members. -/
def objectMember (m : Machine) (id : UInt32) : Machine × Status :=
  match m.image.text? id with
  | none => m.stop .badString
  | some name =>
    match m.operands with
    | [] => m.stop .missingOperand
    | v :: rest =>
      match v with
      | .object r =>
        match m.heap.member? r name with
        | some part => go (m.replaceTop v rest part)
        | none => stop (m.dropped rest [v]) .noSuchMember
      | _ => stop (m.dropped rest [v]) .notObject

/-- Replaces an array and an index by the element there. -/
def element (m : Machine) : Machine × Status :=
  match m.operands with
  | [] => m.stop .missingOperand
  | .int i :: below =>
    match below with
    | [] => stop (m.dropped [] []) .missingOperand
    | v :: rest =>
      match v with
      | .array r =>
        match (elementIndex? i).bind ((m.heap.items r)[·]?) with
        | some part => go (m.replaceTop v rest part)
        | none => stop (m.dropped rest [v]) .arrayIndexOutOfBounds
      | _ => stop (m.dropped rest [v]) .notArray
  | v :: rest => stop (m.dropped rest [v]) .notInteger

/-- Applies an operator to the operand on top. -/
def unary (m : Machine) (op : UnaryOp) : Machine × Status :=
  match m.operands with
  | [] => m.stop .missingOperand
  | v :: rest =>
    match op.apply v with
    | .ok result => go (m.replaceTop v rest result)
    | .error cause => stop (m.dropped rest [v]) cause

/-- Applies an operator to the two operands on top. -/
def binary (m : Machine) (op : BinaryOp) : Machine × Status :=
  match m.operands with
  | [] => m.stop .missingOperand
  | [v] => stop (m.dropped [] [v]) .missingOperand
  | right :: left :: rest =>
    match op.apply left right with
    | .ok result =>
      go { m with operands := result :: rest, heap := (m.heap.retain result).release [left, right] }
    | .error cause => stop (m.dropped rest [left, right]) cause

/-! ## Variables -/

/-- How many locals belong to functions that wait for a call to return. -/
def callerLocals (m : Machine) : Nat :=
  match m.frames.find? (fun f => f.kind = .function) with
  | some f => f.base
  | none => 0

/-- Whether a slot is one of the running function's locals. -/
def ownsLocal (m : Machine) (slot : Nat) : Bool := slot + 1 + m.callerLocals ≤ m.locals.length

/-- Pushes the value of a global. -/
def loadGlobal (m : Machine) (slot : Nat) : Machine × Status :=
  match m.globals[slot]? with
  | some v => go (m.pushCopy v)
  | none => m.stop .badGlobal

/-- Pushes the value of a local. -/
def loadLocal (m : Machine) (slot : Nat) : Machine × Status :=
  match m.locals[slot]? with
  | some v => if m.ownsLocal slot then go (m.pushCopy v) else m.stop .badLocal
  | none => m.stop .badLocal

/-- Makes the operand on top the value of a global. -/
def storeGlobal (m : Machine) (slot : Nat) : Machine × Status :=
  match m.operands with
  | [] => m.stop .missingOperand
  | v :: rest =>
    match m.globals[slot]? with
    | some old => go { m.dropped rest [old] with globals := m.globals.set slot v }
    | none => stop (m.dropped rest [v]) .badGlobal

/-- Makes the operand on top a new local. -/
def pushLocal (m : Machine) : Machine × Status :=
  match m.operands with
  | [] => m.stop .missingOperand
  | v :: rest => go { m with operands := rest, locals := v :: m.locals }

/-- Makes the operand on top the value of a local. -/
def storeLocal (m : Machine) (slot : Nat) : Machine × Status :=
  match m.operands with
  | [] => m.stop .missingOperand
  | v :: rest =>
    match m.locals[slot]? with
    | some old =>
      if m.ownsLocal slot then go { m.dropped rest [old] with locals := m.locals.set slot v }
      else stop (m.dropped rest [v]) .badLocal
    | none => stop (m.dropped rest [v]) .badLocal

/-- Makes the operand on top the value of a member of the object below it. -/
def storeMember (m : Machine) (id : UInt32) : Machine × Status :=
  match m.operands with
  | [] => m.stop .missingOperand
  | v :: below =>
    match m.image.text? id with
    | none => stop (m.dropped below [v]) .badString
    | some name =>
      match below with
      | [] => stop (m.dropped [] [v]) .missingOperand
      | target :: rest =>
        match target with
        | .object r =>
          match m.heap.setMember? r name v with
          | some heap => go { m with operands := rest, heap := heap.release [target] }
          | none => stop (m.dropped rest [v, target]) .noSuchMember
        | _ => stop (m.dropped rest [v, target]) .notObject

/-- Makes the operand on top the value of the element at the index below it, in the array below
that. -/
def storeElement (m : Machine) : Machine × Status :=
  match m.operands with
  | [] => m.stop .missingOperand
  | [v] => stop (m.dropped [] [v]) .missingOperand
  | v :: .int i :: below =>
    match below with
    | [] => stop (m.dropped [] [v]) .missingOperand
    | target :: rest =>
      match target with
      | .array r =>
        match (elementIndex? i).bind (m.heap.setItem? r · v) with
        | some heap => go { m with operands := rest, heap := heap.release [target] }
        | none => stop (m.dropped rest [v, target]) .arrayIndexOutOfBounds
      | _ => stop (m.dropped rest [v, target]) .notArray
  | v :: index :: rest => stop (m.dropped rest [v, index]) .notInteger

/-! ## Instructions -/

/-- Takes a condition and enters the body it chooses, unless that is empty. -/
def branch (m : Machine) (yes no : List Op) : Machine × Status :=
  match m.operands with
  | [] => m.stop .missingOperand
  | v :: rest =>
    let m := m.dropped rest [v]
    let body := if v.isTruthy then yes else no
    if body.isEmpty then go m else go (m.enter .branch body)

/-- Runs an instruction. -/
def exec (m : Machine) : Op → Machine × Status
  | .line n => go { m with location := { m.location with line := n } }
  | .file id =>
    match m.image.text? id with
    | some file => go { m with location := { m.location with file } }
    | none => m.stop .badString
  | .discard =>
    match m.operands with
    | [] => m.stop .missingOperand
    | v :: rest => go (m.dropped rest [v])
  | .pushNull => go (m.push .null)
  | .pushInt n => go (m.push (.int n))
  | .pushFloat bits => go (m.push (.float (.ofBits bits)))
  | .pushText id =>
    match m.image.text? id with
    | some s => go (m.push (.text none s))
    | none => m.stop .badString
  | .makeTuple n => m.makeTuple n.toNat
  | .makeObject shape => m.makeObject shape
  | .makeArray n => m.makeArray n.toNat
  | .tupleMember i => m.tupleMember i.toNat
  | .objectMember id => m.objectMember id
  | .element => m.element
  | .loadGlobal slot => m.loadGlobal slot.toNat
  | .loadLocal slot => m.loadLocal slot.toNat
  | .unary op => m.unary op
  | .binary op => m.binary op
  | .storeGlobal slot => m.storeGlobal slot.toNat
  | .pushLocal => m.pushLocal
  | .storeLocal slot => m.storeLocal slot.toNat
  | .storeMember id => m.storeMember id
  | .storeElement => m.storeElement
  | .branch yes no => m.branch yes no
  | .loop body => go (m.enter .loop body)
  | .tick body => go (m.enter .tick body)
  | .continueLoop => m.continueLoop
  | .breakLoop => m.breakLoop
  | .call id => m.call id
  | .callBuiltin id => m.callBuiltin id
  | .giveBack => m.giveBack

/-- Runs the next instruction of the body on top, or leaves the body. -/
def execNext (m : Machine) : Machine × Status :=
  match m.frames with
  | [] => m.stop .malformedProgram
  | f :: frames =>
    match f.rest with
    | [] => m.endFrame
    | op :: rest => ({ m with frames := { f with rest } :: frames } : Machine).exec op

/-- Makes one step. -/
def step (m : Machine) : Machine × Status :=
  match m.phase with
  | .complete => (m, .complete)
  | .faulted f => (m, .fault f)
  | .awaiting => m.stop .callPending
  | .running =>
    if m.limits.instructions ≤ m.spent then (m, .budgetSpent)
    else if m.limits.memory < m.usedMemory then m.stop .memoryExceeded
    else { m with spent := m.spent + 1 }.execNext

end TickScript.Machine
