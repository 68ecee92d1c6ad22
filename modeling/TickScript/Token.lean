import TickScript.Location
import TickScript.Decimal.Notation
import TickScript.Text.Quoted

/-!
# Tokens

The words of a script: names, literals, keywords and symbols. A **lexeme** is a token with the line
it starts on. Keywords and symbols are spelled in one way only, so `spelling` is a table for them;
`Keyword.ofSpelling?` reads it backwards, and so do `Symbol.single?` and `Symbol.withEquals?`.
-/

namespace TickScript

/-- The reserved words. -/
inductive Keyword where
  | kwVar
  | kwFun
  | kwLoop
  | kwWhile
  | kwTick
  | kwContinue
  | kwBreak
  | kwReturn
  | kwAnd
  | kwOr
  | kwNot
  | kwIf
  | kwElse
  | kwNull
deriving Repr, DecidableEq

namespace Keyword

/-- All reserved words. -/
def all : List Keyword :=
  [kwVar, kwFun, kwLoop, kwWhile, kwTick, kwContinue, kwBreak, kwReturn, kwAnd, kwOr, kwNot, kwIf,
    kwElse, kwNull]

/-- The reserved word as it stands in a script. -/
def spelling : Keyword → String
  | kwVar => "var"
  | kwFun => "fun"
  | kwLoop => "loop"
  | kwWhile => "while"
  | kwTick => "tick"
  | kwContinue => "continue"
  | kwBreak => "break"
  | kwReturn => "return"
  | kwAnd => "and"
  | kwOr => "or"
  | kwNot => "not"
  | kwIf => "if"
  | kwElse => "else"
  | kwNull => "null"

/-- The reserved word with a spelling. -/
def ofSpelling? (s : String) : Option Keyword := all.find? fun k => k.spelling = s

end Keyword

/-- Brackets, separators and operators. -/
inductive Symbol where
  | openParen
  | closeParen
  | openBrace
  | closeBrace
  | openBracket
  | closeBracket
  | dot
  | comma
  | plus
  | minus
  | star
  | slash
  | percent
  | less
  | greater
  | lessEqual
  | greaterEqual
  | equal
  | notEqual
  | assign
deriving Repr, DecidableEq

namespace Symbol

/-- The symbol as it stands in a script. -/
def spelling : Symbol → String
  | openParen => "("
  | closeParen => ")"
  | openBrace => "\x7b"
  | closeBrace => "\x7d"
  | openBracket => "["
  | closeBracket => "]"
  | dot => "."
  | comma => ","
  | plus => "+"
  | minus => "-"
  | star => "*"
  | slash => "/"
  | percent => "%"
  | less => "<"
  | greater => ">"
  | lessEqual => "<="
  | greaterEqual => ">="
  | equal => "=="
  | notEqual => "!="
  | assign => "="

/-- The symbol of one character. -/
def single? : Char → Option Symbol
  | '(' => some openParen
  | ')' => some closeParen
  | '\x7b' => some openBrace
  | '\x7d' => some closeBrace
  | '[' => some openBracket
  | ']' => some closeBracket
  | '.' => some dot
  | ',' => some comma
  | '+' => some plus
  | '-' => some minus
  | '*' => some star
  | '/' => some slash
  | '%' => some percent
  | '<' => some less
  | '>' => some greater
  | '=' => some assign
  | _ => none

/-- The symbol of a character followed by an equals sign. -/
def withEquals? : Char → Option Symbol
  | '<' => some lessEqual
  | '>' => some greaterEqual
  | '=' => some equal
  | '!' => some notEqual
  | _ => none

end Symbol

/-- The words of a script. -/
inductive Token where
  | name (s : String)
  | int (n : Int64)
  | float (x : Float)
  | text (s : String)
  | keyword (k : Keyword)
  | symbol (s : Symbol)
deriving Repr, DecidableEq

namespace Token

/-- Whether the token is a reserved word. -/
def isKeyword : Token → Bool
  | keyword _ => true
  | _ => false

/-- Whether the token stands for a value by itself. -/
def isLiteral : Token → Bool
  | int _ | float _ | text _ | keyword .kwNull => true
  | _ => false

/-- The token as a script could spell it; texts are quoted. -/
def spelling : Token → String
  | name s => s
  | int n => Decimal.intText n.toInt
  | float x => Decimal.floatText x
  | text s => Text.quoted s
  | keyword k => k.spelling
  | symbol s => s.spelling

end Token

/-- A token and the line it starts on. -/
structure Lexeme where
  token : Token
  location : Location
deriving Repr, DecidableEq

end TickScript
