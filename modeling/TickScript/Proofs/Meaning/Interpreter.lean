import TickScript.Machine.Step
import TickScript.Program.Script
import TickScript.Proofs.Builtin.Conduct

/-!
# What a script means

A script can be run as it is written, without instructions, slots and frames. Variables are looked up
by name: in the blocks around the place of use, the innermost first, and then among the globals. What a
statement does to the flow of control is a value (`Signal`) that the statements around it act on.

This is the meaning that compiled programs are measured by. It knows no limits: a loop that never ends
never ends here either. Hence the fuel, which counts down with every pass of a loop and every call
inside a call.

Values are counted here as they are everywhere: whoever holds a value holds a reference to it, a copy
takes one and what is no longer needed gives one back.
-/

namespace TickScript

/-! ## Variables -/

/-- The variables of a block with their values, the latest first. -/
abbrev Bindings := List (String × Value)

/-- The value of the latest variable with a name. -/
def lookup? (s : String) : Bindings → Option Value
  | [] => none
  | (t, v) :: b => if t == s then some v else lookup? s b

/-- The variables with another value for the latest one with a name, and the value that it had. -/
def update? (s : String) (v : Value) : Bindings → Option (Value × Bindings)
  | [] => none
  | (t, old) :: b =>
    if t == s then some (old, (t, v) :: b)
    else (update? s v b).map fun (found, b') => (found, (t, old) :: b')

/-- The variables of the blocks around a place, the innermost block first. -/
abbrev Blocks := List Bindings

/-- The value of the variable that a name stands for: the innermost block that has one decides. -/
def seen? (s : String) : Blocks → Option Value
  | [] => none
  | b :: outer =>
    match lookup? s b with
    | some v => some v
    | none => seen? s outer

/-- The blocks with another value for the variable that a name stands for, and the value that it had. -/
def assigned? (s : String) (v : Value) : Blocks → Option (Value × Blocks)
  | [] => none
  | b :: outer =>
    match update? s v b with
    | some (old, b') => some (old, b' :: outer)
    | none => (assigned? s v outer).map fun (old, outer') => (old, b :: outer')

/-! ## Actions -/

/-- What a running script changes: the heap, the globals by name, the log of this tick, what the host
keeps for itself, the logs of the ticks that are over, and how many more ticks there are. -/
structure Store (κ : Type) where
  heap : Heap
  globals : String → Option Value
  log : List String
  context : κ
  past : List (List String)
  left : Nat

/-- Why a run stopped before the end of the script: its fuel or its ticks were used up, or it failed. -/
inductive Halt where
  | starved
  | paused
  | failed (cause : Cause) (detail : Option String)
deriving Repr, DecidableEq

/-- Something that a running script does. -/
abbrev Action (κ α : Type) := ExceptT Halt (StateM (Store κ)) α

namespace Action

variable {κ α : Type}

/-- The script fails for a cause. -/
def fail (cause : Cause) : Action κ α := throw (.failed cause none)

/-- Takes a reference for a copy of a value. -/
def keep (v : Value) : Action κ Unit := modify fun st => { st with heap := st.heap.retain v }

/-- Gives back a reference for each value. -/
def drop (vs : List Value) : Action κ Unit := modify fun st => { st with heap := st.heap.release vs }

/-- Makes a value in the heap. -/
def make (build : Heap → Value × Heap) : Action κ Value :=
  modifyGet fun st => ((build st.heap).1, { st with heap := (build st.heap).2 })

/-- What comes out of some values, which are then dropped. -/
def exchange (vs : List Value) (result : Value) : Action κ Value := do
  keep result
  drop vs
  return result

/-- Drops some values and fails. -/
def refuse (vs : List Value) (cause : Cause) : Action κ α := do
  drop vs
  fail cause

/-- Ends the tick. -/
def wait : Action κ Unit := fun st =>
  match st.left with
  | 0 => (.error .paused, { st with past := st.past ++ [st.log], log := [] })
  | n + 1 => (.ok (), { st with past := st.past ++ [st.log], log := [], left := n })

/-! ### Operators -/

def tupleMember (v : Value) (i : Nat) : Action κ Value :=
  match v with
  | .tuple _ _ items =>
    match items[i]? with
    | some part => exchange [v] part
    | none => refuse [v] .tupleIndexOutOfBounds
  | _ => refuse [v] .notTuple

def objectMember (v : Value) (member : String) : Action κ Value :=
  match v with
  | .object r => do
    match (← get).heap.member? r member with
    | some part => exchange [v] part
    | none => refuse [v] .noSuchMember
  | _ => refuse [v] .notObject

/-- The element of an array. The index is looked at first. -/
def element (v index : Value) : Action κ Value :=
  match index with
  | .int i =>
    match v with
    | .array r => do
      let items := (← get).heap.items r
      match (Machine.elementIndex? i).bind (items[·]?) with
      | some part => exchange [v] part
      | none => refuse [v] .arrayIndexOutOfBounds
    | _ => refuse [v] .notArray
  | _ => refuse [index] .notInteger

def unary (op : UnaryOp) (v : Value) : Action κ Value :=
  match op.apply v with
  | .ok result => exchange [v] result
  | .error cause => refuse [v] cause

def binary (op : BinaryOp) (v w : Value) : Action κ Value :=
  match op.apply v w with
  | .ok result => exchange [v, w] result
  | .error cause => refuse [v, w] cause

/-! ### Assignments -/

/-- The value of a variable, of a block or else of the script. -/
def load (env : Blocks) (s : String) : Action κ Value := do
  match (seen? s env).or ((← get).globals s) with
  | some v => do
    keep v
    return v
  | none => fail .unknownVariable

/-- Makes a value that of a global. -/
def storeGlobal (s : String) (v : Value) : Action κ Unit := do
  match (← get).globals s with
  | some old => do
    modify fun st => { st with globals := fun t => if t == s then some v else st.globals t }
    drop [old]
  | none => fail .unknownVariable

/-- Makes a value that of a variable, of a block or else of the script. -/
def store (env : Blocks) (s : String) (v : Value) : Action κ Blocks :=
  match assigned? s v env with
  | some (old, env') => do
    drop [old]
    return env'
  | none => do
    storeGlobal s v
    return env

/-- Puts a changed heap in place, if there is one, and drops the object or array that was changed. -/
def change (target v : Value) (cause : Cause) (changed : Heap → Option Heap) : Action κ Unit := do
  match changed (← get).heap with
  | some heap => do
    modify fun st => { st with heap }
    drop [target]
  | none => refuse [v, target] cause

def storeMember (target : Value) (member : String) (v : Value) : Action κ Unit :=
  match target with
  | .object r => change target v .noSuchMember fun heap => heap.setMember? r member v
  | _ => refuse [v, target] .notObject

def storeElement (target index v : Value) : Action κ Unit :=
  match index with
  | .int i =>
    match target with
    | .array r =>
      change target v .arrayIndexOutOfBounds fun heap =>
        (Machine.elementIndex? i).bind (heap.setItem? r · v)
    | _ => refuse [v, target] .notArray
  | _ => refuse [v, index] .notInteger

end Action

/-! ## Expressions -/

/-- What a script refers to beyond its variables: the functions of its host, the memory that these may
use, and its own functions. -/
structure Surroundings (κ : Type) where
  registry : Registry κ
  memory : Nat
  functions : List Declaration

variable {κ : Type}

/-- Calls a function of the host, which the arguments are lent to. There is no machine for it to look at, but
the memory that it may use, the heap and the log. -/
def Builtin.call (b : Builtin κ) (memory : Nat) (args : List Value) : Action κ Value := fun st =>
  let reply := b.run args (.vacant memory st.heap st.log) st.context
  (reply.result.mapError fun f => .failed f.cause f.detail,
    { st with heap := reply.heap.release args, log := reply.log, context := reply.context })

/-- Calls the function with a name: of the script, or else of the host. -/
def Surroundings.call (w : Surroundings κ) (invoke : Declaration → List Value → Action κ Value)
    (callee : String) (args : List Value) : Action κ Value :=
  match w.functions.find? (fun d => d.name == callee) with
  | some d => invoke d args
  | none =>
    match w.registry.get? callee with
    | some b => b.call w.memory args
    | none => .fail .unknownFunction

section Evaluation

variable (w : Surroundings κ) (invoke : Declaration → List Value → Action κ Value)

mutual

/-- The value of an expression. Its parts come first, from left to right. -/
def Expr.eval (env : Blocks) : Expr → Action κ Value
  | .name _ s => .load env s
  | .null _ => return .null
  | .int _ n => return .int n
  | .float _ x => return .float x
  | .text _ s => return .text none s
  | .tuple _ items => do
    let vs ← evalAll env items
    .make (·.tuple vs)
  | .object _ members => do
    let vs ← evalMembers env members
    .make (·.object (members.map (·.1)) vs)
  | .array _ items => do
    let vs ← evalAll env items
    .make (·.array vs)
  | .call _ callee args => do
    let vs ← evalAll env args
    w.call invoke callee vs
  | .tupleMember _ base index => do
    let v ← base.eval env
    .tupleMember v index.toNat
  | .objectMember _ base member => do
    let v ← base.eval env
    .objectMember v member
  | .element _ base index => do
    let v ← base.eval env
    let i ← index.eval env
    .element v i
  | .unary _ op operand => do
    let v ← operand.eval env
    .unary op v
  | .binary _ op left right => do
    let v ← left.eval env
    let v' ← right.eval env
    .binary op v v'

/-- The values of several expressions. -/
def evalAll (env : Blocks) : List Expr → Action κ (List Value)
  | [] => return []
  | e :: es => do
    let v ← e.eval env
    let vs ← evalAll env es
    return v :: vs

/-- The values of an object's members. -/
def evalMembers (env : Blocks) : List (String × Expr) → Action κ (List Value)
  | [] => return []
  | (_, e) :: ms => do
    let v ← e.eval env
    let vs ← evalMembers env ms
    return v :: vs

end

/-- Carries out an assignment. The parts of the target come before the value. -/
def assign (env : Blocks) (target value : Expr) : Action κ Blocks :=
  match target with
  | .name _ s => do
    let v ← value.eval w invoke env
    .store env s v
  | .objectMember _ base member => do
    let t ← base.eval w invoke env
    let v ← value.eval w invoke env
    Action.storeMember t member v
    return env
  | .element _ base index => do
    let t ← base.eval w invoke env
    let i ← index.eval w invoke env
    let v ← value.eval w invoke env
    Action.storeElement t i v
    return env
  | _ => .fail .notAssignable

end Evaluation

/-! ## Statements -/

/-- Where control goes after a statement: to the next one, out of the innermost loop, to its next pass,
or out of the function with a result. -/
inductive Signal where
  | next
  | breaks
  | continues
  | returns (v : Value)
deriving Repr

/-- Runs something in a block of its own, which starts with some variables and ends with it. -/
def inBlock (b : Bindings) (body : Blocks → Action κ (Signal × Blocks)) (env : Blocks) :
    Action κ (Signal × Blocks) := do
  let (signal, env') ← body (b :: env)
  Action.drop ((env'.head?.getD []).map (·.2))
  return (signal, env'.tail)

/-- Makes passes until one ends the loop, with something between one pass and the next. -/
def iterate (pass : Blocks → Action κ (Signal × Blocks)) (between : Action κ Unit) :
    Nat → Blocks → Action κ (Signal × Blocks)
  | 0, _ => throw .starved
  | fuel + 1, env => do
    let (signal, env') ← pass env
    match signal with
    | .next | .continues => do
      between
      iterate pass between fuel env'
    | .breaks => return (.next, env')
    | .returns v => return (.returns v, env')

section Execution

variable (w : Surroundings κ) (invoke : Declaration → List Value → Action κ Value) (fuel : Nat)

/-- Runs something if a condition holds, and something else if not. -/
def choose (cond : Expr) (yes no : Blocks → Action κ (Signal × Blocks)) (env : Blocks) :
    Action κ (Signal × Blocks) := do
  let v ← cond.eval w invoke env
  Action.drop [v]
  if v.isTruthy then yes env else no env

mutual

/-- Carries out a statement. -/
def Stmt.exec : Stmt → Blocks → Action κ (Signal × Blocks)
  | .assign _ target value, env => do
    let env' ← assign w invoke env target value
    return (.next, env')
  | .branch _ cond yes no, env =>
    choose w invoke cond (inBlock [] (execAll yes)) (inBlock [] (execAll no)) env
  | .loop _ body, env => iterate (inBlock [] (execAll body)) (return ()) fuel env
  | .tick _ body, env => iterate (inBlock [] (execAll body)) .wait fuel env
  | .whileLoop _ cond body, env =>
    -- The condition is part of every pass.
    iterate (inBlock [] (choose w invoke cond (execAll body) fun env => return (.breaks, env)))
      (return ()) fuel env
  | .continueLoop _, env => return (.continues, env)
  | .breakLoop _, env => return (.breaks, env)
  | .giveBack _ value, env => do
    let v ← value.eval w invoke env
    return (.returns v, env)
  | .declare _ s value, env => do
    let v ← value.eval w invoke env
    match env with
    -- Outside of all blocks a declaration makes a global.
    | [] => do
      Action.storeGlobal s v
      return (.next, [])
    | b :: outer => return (.next, ((s, v) :: b) :: outer)
  | .function _ _ _ _, _ => .fail .nestedFunction
  | .expr _ value, env => do
    let v ← value.eval w invoke env
    Action.drop [v]
    return (.next, env)

/-- Carries out the statements of a block, until one sends control elsewhere. -/
def execAll : List Stmt → Blocks → Action κ (Signal × Blocks)
  | [], env => return (.next, env)
  | s :: ss, env => do
    let (signal, env') ← s.exec env
    match signal with
    | .next => execAll ss env'
    | _ => return (signal, env')

end

end Execution

/-! ## Scripts -/

/-- Calls a function of the script. Its arguments are the variables of the block around its body. -/
def invoke (w : Surroundings κ) : Nat → Declaration → List Value → Action κ Value
  | 0, _, _ => throw .starved
  | fuel + 1, d, args => do
    let (signal, _) ← inBlock (d.params.zip args)
      (inBlock [] (execAll w (invoke w fuel) fuel d.body)) []
    match signal with
    | .returns v => return v
    | _ => return .null

/-- The function that a statement declares. -/
def Stmt.declaration? : Stmt → Option Declaration
  | .function loc s params body => some ⟨loc, s, params, body⟩
  | _ => none

/-- Whether a statement declares a variable with a name. -/
def Stmt.declares (s : String) : Stmt → Bool
  | .declare _ t _ => t == s
  | _ => false

/-- The store that a script starts with: the variables it declares at its top exist from the start. -/
def Store.start (script : List Stmt) (waits : Nat) (context : κ) : Store κ where
  heap := .empty
  globals s := if script.any (Stmt.declares s) then some .null else none
  log := []
  context := context
  past := []
  left := waits

/-- Runs a script with some fuel, until it waits for the next tick once more than it may. -/
def meaning (r : Registry κ) (memory waits fuel : Nat) (script : List Stmt) (context : κ) :
    Except Halt Unit × Store κ :=
  let w : Surroundings κ := ⟨r, memory, script.filterMap Stmt.declaration?⟩
  let body : Action κ Unit := do
    let _ ← execAll w (invoke w fuel) fuel (script.filter (! ·.isFunction)) []
  body.run.run (Store.start script waits context)

end TickScript
