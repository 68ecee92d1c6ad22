import TickScript.Program.Lowering
import TickScript.Program.Marks

/-!
# The program of a script

The declarations of a script's top come first: they say what its functions and globals are, whatever
the place they are used at. Then each function becomes a body of its own, and the other statements of
the top become the body of the program.
-/

namespace TickScript

/-- The functions and globals that a script declares at its top, in order. -/
structure Declared where
  functions : List Declaration
  globals : List String

/-- Adds what the statements of a script's top declare. A function may be declared once; declaring a
global again is an assignment. -/
def Declared.collect (features : FeatureSet) (d : Declared) :
    List Stmt → Except Diagnostic Declared
  | [] => .ok d
  | .function loc s params body :: rest =>
    if ! features.contains .functions then .error ⟨.featureUnsupported, loc⟩
    else if d.functions.any (fun f => f.name == s) then .error ⟨.duplicateFunction, loc⟩
    else collect features { d with functions := d.functions ++ [⟨loc, s, params, body⟩] } rest
  | .declare _ s _ :: rest =>
    collect features
      (if d.globals.contains s then d else { d with globals := d.globals ++ [s] }) rest
  | _ :: rest => collect features d rest

/-- Whether a statement declares a function. -/
def Stmt.isFunction : Stmt → Bool
  | .function _ _ _ _ => true
  | _ => false

/-- The function of a declaration. It starts by making its arguments locals. -/
def Declaration.lower (ns : Names) (d : Declaration) :
    Except Diagnostic (Function String (List String)) := do
  let body ← lowerStmts ns (.ofParams d.params) d.body
  return {
    name := d.name
    arity := UInt32.ofNat d.params.length
    line := d.loc.line
    file := d.loc.file
    body := thinBody (List.replicate d.params.length .pushLocal ++ body) }

/-- The program of a script for a processor with the given features and a host with the given
functions. -/
def lowerScript (features : FeatureSet) (builtins : List (Signature String)) (script : List Stmt) :
    Except Diagnostic (Program String (List String)) := do
  let d ← Declared.collect features ⟨[], []⟩ script
  let ns : Names := ⟨features, builtins, d.functions, d.globals⟩
  let functions ← d.functions.mapM (Declaration.lower ns)
  let body ← lowerStmts ns .top (script.filter (! ·.isFunction))
  return {
    builtins := builtins
    globals := d.globals
    functions := functions
    body := thinBody body }

end TickScript
