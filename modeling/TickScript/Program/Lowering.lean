import TickScript.Program
import TickScript.Feature
import TickScript.Diagnostic

/-!
# From statements to instructions

Lowering resolves every name and checks every rule that does not need a run: a variable is a local of
the enclosing blocks or a global of the script, a call names a function of the script or else of the
host and gives as many arguments as it takes, `break` and `continue` stand in a loop and `return` in
a function, functions stand at the top only, and each optional part of the language is supported.

**Names.** A block sees the locals of the blocks around it, and what it declares ends with it. The
locals of a scope are listed as the machine stacks them, the latest first, so the slot of a name is
its first place in the list. At the top of the script declarations make globals instead, and a
global can be used anywhere, before its declaration too.

**Places.** Every statement and expression first says where it stands. Most of this is redundant and
is dropped by a pass of its own (`Instr.thin`).
-/

namespace TickScript

/-- An instruction that mentions texts and shapes themselves. -/
abbrev Code := Instr String (List String)

/-- A function of the script as it was declared. -/
structure Declaration where
  loc : Location
  name : String
  params : List String
  body : List Stmt

/-- What the names of a script stand for, whatever the place they are used at. -/
structure Names where
  features : FeatureSet
  builtins : List (Signature String)
  functions : List Declaration
  globals : List String

/-- What a place in the script is inside of, and the locals it sees, the latest first. -/
structure Scope where
  atTop : Bool
  inFunction : Bool
  inLoop : Bool
  locals : List String

namespace Scope

/-- The scope of a script's top. -/
def top : Scope := ⟨true, false, false, []⟩

/-- The scope of a function's body. The first argument is stacked last. -/
def ofParams (params : List String) : Scope := ⟨false, true, false, params⟩

/-- The scope of a block that is no loop. -/
def block (s : Scope) : Scope := { s with atTop := false }

/-- The scope of a loop's body. -/
def loopBody (s : Scope) : Scope := { s with atTop := false, inLoop := true }

/-- The scope of what follows a statement in its block. -/
def after (s : Scope) : Stmt → Scope
  | .declare _ declared _ => if s.atTop then s else { s with locals := declared :: s.locals }
  | _ => s

end Scope

namespace Names

/-- The slot of a name in a list of names: its first place there. -/
def slot? (table : List String) (s : String) : Option UInt32 :=
  (table.findIdx? fun t => t == s).map UInt32.ofNat

/-- Refuses a construct whose feature is not supported. -/
def require (ns : Names) (f : Feature) (loc : Location) : Except Diagnostic Unit :=
  if ns.features.contains f then .ok () else .error ⟨.featureUnsupported, loc⟩

/-- The first entry of a table that passes a test, and its number. -/
def entryWhere? {α : Type} (p : α → Bool) (table : List α) : Option (α × UInt32) :=
  (table.zipIdx.find? fun (a, _) => p a).map fun (a, id) => (a, UInt32.ofNat id)

/-- What a called name stands for, and how many arguments it takes. A function of the script hides a
function of the host. -/
def callee? (ns : Names) (s : String) : Option (Code × UInt32) :=
  match entryWhere? (fun d => d.name == s) ns.functions with
  | some (d, id) => some (.call id, UInt32.ofNat d.params.length)
  | none =>
    (entryWhere? (fun b => b.name == s) ns.builtins).map fun (b, id) => (.callBuiltin id, b.arity)

/-- The instruction that calls a name with a number of arguments. -/
def resolveCall (ns : Names) (loc : Location) (s : String) (given : Nat) : Except Diagnostic Code :=
  match ns.callee? s with
  | none => .error ⟨.unknownFunction, loc⟩
  | some (instr, arity) =>
    if UInt32.ofNat given < arity then .error ⟨.tooFewArguments, loc⟩
    else if arity < UInt32.ofNat given then .error ⟨.tooManyArguments, loc⟩
    else .ok instr

/-- The instruction that loads a variable. -/
def load? (ns : Names) (scope : Scope) (s : String) : Option Code :=
  match slot? scope.locals s, slot? ns.globals s with
  | some slot, _ => some (.loadLocal slot)
  | none, some slot => some (.loadGlobal slot)
  | none, none => none

/-- The instruction that stores into a variable. -/
def store? (ns : Names) (scope : Scope) (s : String) : Option Code :=
  match slot? scope.locals s, slot? ns.globals s with
  | some slot, _ => some (.storeLocal slot)
  | none, some slot => some (.storeGlobal slot)
  | none, none => none

end Names

/-- Says where what follows stands. -/
def placed (loc : Location) : List Code := [.file loc.file, .line loc.line]

/-- Refuses a name that stands for no variable. -/
def orUnknown (loc : Location) : Option Code → Except Diagnostic Code
  | some instr => .ok instr
  | none => .error ⟨.unknownVariable, loc⟩

mutual

/-- The instructions that push the value of an expression. -/
def Expr.lower (ns : Names) (scope : Scope) : Expr → Except Diagnostic (List Code)
  | .name loc s => do
    let load ← orUnknown loc (ns.load? scope s)
    return placed loc ++ [load]
  | .null loc => return placed loc ++ [.pushNull]
  | .int loc n => return placed loc ++ [.pushInt n]
  | .float loc x => do
    ns.require .floats loc
    return placed loc ++ [.pushFloat x.toBits]
  | .text loc s => return placed loc ++ [.pushText s]
  | .tuple loc items => do
    let items' ← lowerExprs ns scope items
    return placed loc ++ items' ++ [.makeTuple (UInt32.ofNat items.length)]
  | .object loc members => do
    ns.require .objects loc
    let values ← lowerMembers ns scope members
    return placed loc ++ values ++ [.makeObject (members.map (·.1))]
  | .array loc items => do
    ns.require .arrays loc
    let items' ← lowerExprs ns scope items
    return placed loc ++ items' ++ [.makeArray (UInt32.ofNat items.length)]
  | .call loc callee args => do
    let call ← ns.resolveCall loc callee args.length
    let args' ← lowerExprs ns scope args
    return placed loc ++ args' ++ [call]
  | .tupleMember loc base index => do
    let base' ← base.lower ns scope
    return placed loc ++ base' ++ [.tupleMember index]
  | .objectMember loc base member => do
    ns.require .objects loc
    let base' ← base.lower ns scope
    return placed loc ++ base' ++ [.objectMember member]
  | .element loc base index => do
    ns.require .arrays loc
    let base' ← base.lower ns scope
    let index' ← index.lower ns scope
    return placed loc ++ base' ++ index' ++ [.element]
  | .unary loc op operand => do
    let operand' ← operand.lower ns scope
    return placed loc ++ operand' ++ [.unary op]
  | .binary loc op left right => do
    let left' ← left.lower ns scope
    let right' ← right.lower ns scope
    return placed loc ++ left' ++ right' ++ [.binary op]

/-- The instructions that push the values of several expressions, the first one first. -/
def lowerExprs (ns : Names) (scope : Scope) : List Expr → Except Diagnostic (List Code)
  | [] => return []
  | e :: es => do
    let first ← e.lower ns scope
    let others ← lowerExprs ns scope es
    return first ++ others

/-- The instructions that push the values of an object's members, the first one first. -/
def lowerMembers (ns : Names) (scope : Scope) : List (String × Expr) → Except Diagnostic (List Code)
  | [] => return []
  | (_, e) :: ms => do
    let first ← e.lower ns scope
    let others ← lowerMembers ns scope ms
    return first ++ others

end

/-- The instructions of an assignment. The parts of the target come before the value, a variable has
none. -/
def lowerAssign (ns : Names) (scope : Scope) (loc : Location) (target value : Expr) :
    Except Diagnostic (List Code) :=
  match target with
  | .name targetLoc s => do
    let value' ← value.lower ns scope
    let store ← orUnknown targetLoc (ns.store? scope s)
    return value' ++ [store]
  | .objectMember targetLoc base member => do
    ns.require .objects targetLoc
    let base' ← base.lower ns scope
    let value' ← value.lower ns scope
    return base' ++ value' ++ [.storeMember member]
  | .element targetLoc base index => do
    ns.require .arrays targetLoc
    let base' ← base.lower ns scope
    let index' ← index.lower ns scope
    let value' ← value.lower ns scope
    return base' ++ index' ++ value' ++ [.storeElement]
  | _ => .error ⟨.notAssignable, loc⟩

/-- The instruction that makes a value the variable of a declaration. -/
def lowerDeclared (ns : Names) (scope : Scope) (loc : Location) (s : String) :
    Except Diagnostic Code :=
  if scope.atTop then orUnknown loc ((Names.slot? ns.globals s).map .storeGlobal)
  else .ok .pushLocal

mutual

/-- The instructions of a statement. -/
def Stmt.lower (ns : Names) (scope : Scope) : Stmt → Except Diagnostic (List Code)
  | .assign loc target value => do
    let code ← lowerAssign ns scope loc target value
    return placed loc ++ code
  | .branch loc cond yes no => do
    let cond' ← cond.lower ns scope
    let yes' ← lowerStmts ns scope.block yes
    let no' ← lowerStmts ns scope.block no
    return placed loc ++ cond' ++ [.branch yes' no']
  | .loop loc body => do
    let body' ← lowerStmts ns scope.loopBody body
    return placed loc ++ [.loop body']
  | .tick loc body => do
    let body' ← lowerStmts ns scope.loopBody body
    return placed loc ++ [.tick body']
  | .whileLoop loc cond body => do
    let cond' ← cond.lower ns scope.loopBody
    let body' ← lowerStmts ns scope.loopBody body
    return placed loc ++ [.loop (cond' ++ [.unary .not, .branch [.breakLoop] []] ++ body')]
  | .continueLoop loc =>
    if scope.inLoop then return placed loc ++ [.continueLoop]
    else .error ⟨.loopControlOutsideLoop, loc⟩
  | .breakLoop loc =>
    if scope.inLoop then return placed loc ++ [.breakLoop]
    else .error ⟨.loopControlOutsideLoop, loc⟩
  | .giveBack loc value =>
    if scope.inFunction then do
      let value' ← value.lower ns scope
      return placed loc ++ value' ++ [.giveBack]
    else .error ⟨.returnOutsideFunction, loc⟩
  | .declare loc declared value => do
    let value' ← value.lower ns scope
    let store ← lowerDeclared ns scope loc declared
    return placed loc ++ value' ++ [store]
  | .function loc _ _ _ => .error ⟨.nestedFunction, loc⟩
  | .expr loc value => do
    let value' ← value.lower ns scope
    return placed loc ++ value' ++ [.discard]

/-- The instructions of the statements of a block. -/
def lowerStmts (ns : Names) (scope : Scope) : List Stmt → Except Diagnostic (List Code)
  | [] => return []
  | s :: ss => do
    let first ← s.lower ns scope
    let others ← lowerStmts ns (scope.after s) ss
    return first ++ others

end

end TickScript
