import TickScript.Syntax.Parser
import TickScript.Proofs.Routine

/-!
# Reading with a cursor

The same reading as a routine: a cursor moves over the lexemes and holds the count of levels, every loop
goes on until it sees the lexeme that ends it, and nothing says that a round of a loop or a call uses up
lexemes. The count is raised in front of what is nested and put back behind it, whether that was read or
refused; several lexemes are stepped over without a look, because the loop before them only ends there.
What a reader takes last is how many calls may be inside each other.

A cursor remembers every position and every count that it has had (`Cursor.trail`), so that what holds of
the trail holds at every moment of the reading.
-/

namespace TickScript.Parser

/-- How many lexemes a reader has stepped over and how many levels it counts, and all such pairs up to
now, the last first. -/
structure Cursor where
  pos : Nat
  depth : Nat
  trail : List (Nat × Nat)
deriving Repr, DecidableEq

/-- A reading with a cursor. -/
abbrev Reading (α : Type) := Routine Cursor Diagnostic α

namespace Cursor

/-- The cursor in front of all lexemes. -/
def start : Cursor := ⟨0, 0, [(0, 0)]⟩

/-- The cursor at another position or with another count. -/
def move (c : Cursor) (pos depth : Nat) : Cursor := ⟨pos, depth, (pos, depth) :: c.trail⟩

/-- Steps over a lexeme, if there is one or not. -/
def advance : Reading Unit := modify fun c => c.move (c.pos + 1) c.depth

variable (tokens : List Lexeme)

/-- The token at the cursor. -/
def next? (c : Cursor) : Option Token := tokens[c.pos]?.map Lexeme.token

/-- The location at the cursor, or where the input ended. -/
def location (c : Cursor) : Location := here (endOf tokens) (tokens.drop c.pos)

/-- Looks at the token at the cursor. -/
def peek : Reading (Option Token) := return (← get).next? tokens

/-- Looks where the lexeme at the cursor stands. -/
def source : Reading Location := return (← get).location tokens

/-- Refuses the input at the cursor. -/
def fail {α : Type} (cause : Cause) : Reading α := do throw ⟨cause, ← source tokens⟩

/-- Steps over a symbol that has to come next. -/
def require (s : Symbol) (cause : Cause) : Reading Unit := do
  if (← peek tokens) = some (.symbol s) then advance else fail tokens cause

/-- Steps over a name that has to come next. -/
def requireName (cause : Cause) : Reading String := do
  match ← peek tokens with
  | some (.name s) =>
    advance
    return s
  | _ => fail tokens cause

/-- Steps over the comma behind an item, unless the closing symbol comes next. -/
def separate (close : Symbol) : Reading Unit := do
  if (← peek tokens) = some (.symbol .comma) then advance
  else if (← peek tokens) = some (.symbol close) then return ()
  else fail tokens .missingComma

/-- Counts a level. -/
def nest : Reading Unit := do
  let depth := (← get).depth
  if maxNesting ≤ depth then fail tokens .nestedTooDeep else modify fun c => c.move c.pos (depth + 1)

/-- Reads what is nested one level deeper, and puts the count back. -/
def counted {α : Type} (m : Reading α) : Reading α :=
  show StateT Cursor Option (Except Diagnostic α) from do
    let entry := (← get).depth
    let result ← (nest tokens >>= fun _ => m : Reading α).run
    modify fun c => c.move c.pos entry
    return result

/-- Reads a list and steps over the lexeme that ends it. -/
def closed {α : Type} (m : Reading α) : Reading α := m >>= fun v => advance >>= fun _ => pure v

/-- Reads the member name or tuple index after a point. -/
def member (acc : Expr) (loc : Location) : Reading Expr := do
  match ← peek tokens with
  | some (.int n) =>
    match tupleIndex? n with
    | some index =>
      advance
      return .tupleMember loc acc index
    | none => fail tokens .numberOutOfRange
  | some (.name s) =>
    advance
    return .objectMember loc acc s
  | _ => fail tokens .invalidMember

/-- The expression in parentheses. -/
def inParentheses (loc : Location) (values : List Expr) : Reading Expr :=
  liftExcept (parenthesized loc values)

mutual

/-- Reads expressions between commas up to a closing symbol. -/
def valueList (close : Symbol) : Nat → Reading (List Expr)
  | 0 => Routine.cutShort
  | n + 1 => do
    if (← peek tokens) = some (.symbol close) then return []
    else
      let e ← expression 0 n
      separate tokens close
      let more ← valueList close n
      return e :: more

/-- Reads the members of an object up to the closing brace. -/
def objectMembers : Nat → Reading (List (String × Expr))
  | 0 => Routine.cutShort
  | n + 1 => do
    if (← peek tokens) = some (.symbol .closeBrace) then return []
    else
      let s ← requireName tokens .missingMemberName
      require tokens .assign .missingMemberEquals
      let e ← expression 0 n
      separate tokens .closeBrace
      let more ← objectMembers n
      return (s, e) :: more

/-- Reads a literal, a name, a bracketed form or an operator with its operand. -/
def value : Nat → Reading Expr
  | 0 => Routine.cutShort
  | n + 1 => do
    let loc ← source tokens
    match (← peek tokens).bind opening? with
    | none => fail tokens .missingValue
    | some (.leaf make) =>
      advance
      return make loc
    | some .parentheses =>
      advance
      let values ← valueList .closeParen n
      advance
      inParentheses loc values
    | some .brackets =>
      advance
      let values ← valueList .closeBracket n
      advance
      return .array loc values
    | some .braces =>
      advance
      let members ← objectMembers n
      advance
      return .object loc members
    | some (.operator power op) =>
      advance
      let operand ← expression power n
      return .unary loc op operand

/-- Reads an expression whose operators hold tighter than `power`. -/
def expression (power : Nat) : Nat → Reading Expr
  | 0 => Routine.cutShort
  | n + 1 => counted tokens do
    let acc ← value n
    fold power acc n

/-- Folds operators and postfix forms into what was read, a level for each of them. -/
def fold (power : Nat) (acc : Expr) : Nat → Reading Expr
  | 0 => Routine.cutShort
  | n + 1 => do
    match (← peek tokens).bind follower? with
    | none => return acc
    | some (p, follower) =>
      if p ≤ power then return acc
      else
        let loc ← source tokens
        advance
        nest tokens
        let acc' ← takeIn p acc follower loc n
        fold power acc' n

/-- Reads what belongs to a follower, and takes the operand in. -/
def takeIn (power : Nat) (acc : Expr) (follower : Follower) (loc : Location) : Nat → Reading Expr
  | 0 => Routine.cutShort
  | n + 1 => do
    match follower with
    | .call =>
      match acc with
      | .name _ callee =>
        let args ← valueList .closeParen n
        advance
        return .call loc callee args
      | _ => throw ⟨.callOfExpression, loc⟩
    | .member => member tokens acc loc
    | .element =>
      let index ← expression 0 n
      require tokens .closeBracket .missingCloseBracket
      return .element loc acc index
    | .operator op =>
      let right ← expression power n
      return .binary loc op acc right

end

/-- Reads parameter names up to the closing parenthesis. -/
def params : Nat → Reading (List String)
  | 0 => Routine.cutShort
  | n + 1 => do
    if (← peek tokens) = some (.symbol .closeParen) then return []
    else
      let s ← requireName tokens .missingParameterName
      separate tokens .closeParen
      let more ← params n
      return s :: more

/-- Reads a statement that no keyword starts: an expression, or an assignment to it. -/
def plain (loc : Location) (n : Nat) : Reading Stmt := do
  let target ← expression tokens 0 n
  if (← peek tokens) = some (.symbol .assign) then
    let loc' ← source tokens
    advance
    let assigned ← expression tokens 0 n
    return .assign loc' target assigned
  else return .expr loc target

mutual

/-- Reads one statement. -/
def statement : Nat → Reading Stmt
  | 0 => Routine.cutShort
  | n + 1 => do
    let loc ← source tokens
    match ← peek tokens with
    | some (.keyword .kwContinue) =>
      advance
      return .continueLoop loc
    | some (.keyword .kwBreak) =>
      advance
      return .breakLoop loc
    | some (.keyword .kwReturn) =>
      advance
      let result ← expression tokens 0 n
      return .giveBack loc result
    | some (.keyword .kwLoop) =>
      advance
      let body ← block n
      return .loop loc body
    | some (.keyword .kwTick) =>
      advance
      let body ← block n
      return .tick loc body
    | some (.keyword .kwWhile) =>
      advance
      let cond ← expression tokens 0 n
      let body ← block n
      return .whileLoop loc cond body
    | some (.keyword .kwVar) =>
      advance
      let s ← requireName tokens .missingVariableName
      require tokens .assign .missingVariableEquals
      let initial ← expression tokens 0 n
      return .declare loc s initial
    | some (.keyword .kwIf) =>
      advance
      let cond ← expression tokens 0 n
      let yes ← block n
      let no ← alternative n
      return .branch loc cond yes no
    | some (.keyword .kwFun) =>
      advance
      let s ← requireName tokens .missingFunctionName
      require tokens .openParen .missingParameterList
      let names ← params tokens n
      advance
      let body ← block n
      return .function loc s names body
    | _ => plain tokens loc n

/-- Reads what follows the first block of an `if`: nothing, another `if` one level deeper, or a block. -/
def alternative : Nat → Reading (List Stmt)
  | 0 => Routine.cutShort
  | n + 1 => do
    if (← peek tokens) = some (.keyword .kwElse) then
      advance
      if (← peek tokens) = some (.keyword .kwIf) then
        let chained ← counted tokens (statement n)
        return [chained]
      else block n
    else return []

/-- Reads statements between braces, one level deeper. -/
def block : Nat → Reading (List Stmt)
  | 0 => Routine.cutShort
  | n + 1 => do
    require tokens .openBrace .missingOpenBrace
    let body ← counted tokens (statements n)
    require tokens .closeBrace .missingCloseBrace
    return body

/-- Reads statements up to a closing brace or the end. -/
def statements : Nat → Reading (List Stmt)
  | 0 => Routine.cutShort
  | n + 1 => do
    match ← peek tokens with
    | none => return []
    | some t =>
      if t = .symbol .closeBrace then return []
      else
        let s ← statement n
        let more ← statements n
        return s :: more

end

/-- Reads a whole script. A closing brace that nothing opened is refused. -/
def script (n : Nat) : Reading (List Stmt) := do
  let ss ← statements tokens n
  match ← peek tokens with
  | none => return ss
  | some _ => fail tokens .missingValue

end Cursor

end TickScript.Parser
