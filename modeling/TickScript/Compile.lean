import TickScript.Token.Lexer
import TickScript.Syntax.Parser
import TickScript.Program.Script
import TickScript.Image.Encode

/-!
# Compiling scripts

A script may be spread over several files. They are read as one, in their order: what an earlier file
declares is known in a later one, and a statement may begin in one file and end in the next.
-/

namespace TickScript

/-- A named file of a script. -/
structure SourceFile where
  name : String
  text : String
deriving Repr, DecidableEq

/-- The lexemes of all files. -/
def tokenizeFiles (files : List SourceFile) : Except Diagnostic (List Lexeme) := do
  let parts ← files.mapM fun f => Lexer.tokenize f.name f.text
  return parts.flatten

/-- The program of a script for a processor with the given features and a host with the given functions. -/
def compileProgram (files : List SourceFile) (features : FeatureSet) (builtins : List (Signature String)) :
    Except Diagnostic (Program String (List String)) := do
  let lexemes ← tokenizeFiles files
  let script ← Parser.parse lexemes
  lowerScript features builtins script

/-- The stored image of the program. -/
def compile (files : List SourceFile) (features : FeatureSet) (builtins : List (Signature String)) :
    Except Diagnostic (List UInt8) := do
  let program ← compileProgram files features builtins
  return (Image.link program).encode

end TickScript
