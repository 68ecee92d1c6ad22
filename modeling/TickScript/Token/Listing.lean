import TickScript.Token
import TickScript.Text.Columns

/-!
# Token listings

One line a token: where it stands, its kind, and the token itself, either under the label of its
constructor or as a script spells it. Colours follow the kinds and can be left out.
-/

namespace TickScript

/-- The label of a reserved word. -/
def Keyword.label : Keyword → String
  | .kwVar => "Var"
  | .kwFun => "Fun"
  | .kwLoop => "Loop"
  | .kwWhile => "While"
  | .kwTick => "Tick"
  | .kwContinue => "Continue"
  | .kwBreak => "Break"
  | .kwReturn => "Return"
  | .kwAnd => "And"
  | .kwOr => "Or"
  | .kwNot => "Not"
  | .kwIf => "If"
  | .kwElse => "Else"
  | .kwNull => "Null"

/-- The label of a symbol. -/
def Symbol.label : Symbol → String
  | .openParen => "LParen"
  | .closeParen => "RParen"
  | .openBrace => "LBrace"
  | .closeBrace => "RBrace"
  | .openBracket => "LBracket"
  | .closeBracket => "RBracket"
  | .dot => "Dot"
  | .comma => "Comma"
  | .plus => "Plus"
  | .minus => "Minus"
  | .star => "Star"
  | .slash => "Slash"
  | .percent => "Percent"
  | .less => "Lt"
  | .greater => "Gt"
  | .lessEqual => "LtEq"
  | .greaterEqual => "GtEq"
  | .equal => "Eq"
  | .notEqual => "NotEq"
  | .assign => "Assign"

namespace Token

/-- The label of a token, without what it carries. -/
def label : Token → String
  | name _ => "Identifier"
  | int _ => "Int"
  | float _ => "Float"
  | text _ => "String"
  | keyword k => k.label
  | symbol s => s.label

/-- The label of a token with what it carries. -/
def labelled : Token → String
  | name s => s!"Identifier({Text.quoted s})"
  | int n => s!"Int({Decimal.intText n.toInt})"
  | float x => s!"Float({Decimal.floatText x})"
  | text s => s!"String({Text.quoted s})"
  | t => t.label

/-- The kind that a listing names. -/
def kind : Token → String
  | int _ => "INT"
  | float _ => "FLOAT"
  | text _ => "STRING"
  | name _ => "IDENT"
  | keyword .kwNull => "NULL"
  | keyword _ => "KEYWORD"
  | symbol s => match s with
    | .openParen | .closeParen => "PAREN"
    | .openBracket | .closeBracket => "BRACKET"
    | .openBrace | .closeBrace => "BRACE"
    | .comma => "COMMA"
    | .equal | .notEqual | .less | .lessEqual | .greater | .greaterEqual => "CMP"
    | .plus | .minus | .star | .slash | .percent | .dot | .assign => "OP"

/-- The terminal sequence that ends a colour. -/
def plainColour : String := "\x1b[0m"

/-- The terminal sequence that starts a token's colour. -/
def colour : Token → String
  | text _ => "\x1b[32m"
  | int _ | float _ | keyword .kwNull => "\x1b[36m"
  | name _ => "\x1b[33m"
  | keyword _ => "\x1b[34m"
  | symbol s => match s with
    | .openParen | .closeParen | .openBracket | .closeBracket | .openBrace | .closeBrace
    | .comma => plainColour
    | _ => "\x1b[35m"

end Token

/-- How a token listing looks. -/
structure ListingStyle where
  /-- Whether tokens are coloured by kind. -/
  coloured : Bool
  /-- Whether tokens are shown as scripts spell them, and not by label. -/
  spelled : Bool

/-- The line of a listing for one lexeme. -/
def Lexeme.listed (style : ListingStyle) (l : Lexeme) : String :=
  let shown := if style.spelled then l.token.spelling else l.token.labelled
  let body := Text.padRight 8 l.token.kind ++ " " ++ shown
  let coloured := if style.coloured then l.token.colour ++ body ++ Token.plainColour else body
  s!"[{l.location.file}:{Text.zeroPadded 3 l.location.line.toNat}] {coloured}"

end TickScript
