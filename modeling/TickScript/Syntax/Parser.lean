import TickScript.Syntax
import TickScript.Token
import TickScript.Diagnostic

/-!
# From lexemes to statements

Statements are read by their first token and expressions by precedence: after a value, operators and
postfix forms that bind tighter than the surrounding one are folded into it. Nothing separates
statements, so each one ends where it cannot go on.

**Progress.** What a parser reads is a `Read`: a value, the lexemes after it, and the proof that some
were used up. The recursion below ends because of it.

**Nesting.** Each expression, each fold of an operator into its left operand, each block and each
chained `else if` counts one level. A level past `maxNesting` is refused, so every pass over the
tree has a bounded recursion. The count is an argument and not a state: what one statement or
operand used is gone when it returns.
-/

namespace TickScript.Parser

/-- The deepest nesting of expressions and blocks that is accepted. -/
def maxNesting : Nat := 256

/-- A value read off the front of fewer than `bound` lexemes left, and what follows it. -/
structure Read (α : Type) (bound : Nat) where
  value : α
  rest : List Lexeme
  shorter : rest.length < bound

/-- The same reading under a weaker bound. -/
def Read.weaken {α : Type} {a b : Nat} (h : a ≤ b) (r : Read α a) : Read α b :=
  ⟨r.value, r.rest, Nat.lt_of_lt_of_le r.shorter h⟩

/-- Where the next lexeme stands, or where the input ended. -/
def here (eof : Location) : List Lexeme → Location
  | [] => eof
  | l :: _ => l.location

/-- Refuses the input at the next lexeme. -/
def refuse {α : Type} (eof : Location) (ts : List Lexeme) (cause : Cause) : Except Diagnostic α :=
  .error ⟨cause, here eof ts⟩

/-- What may follow an operand and take it in: a call, a member, an element, or an operator. -/
inductive Follower where
  | call
  | member
  | element
  | operator (op : BinaryOp)
deriving Repr, DecidableEq

/-- What a token means after an operand, and how tightly it holds the operand. -/
def follower? : Token → Option (Nat × Follower)
  | .symbol .openParen => some (7, .call)
  | .symbol .dot => some (7, .member)
  | .symbol .openBracket => some (7, .element)
  | .symbol .star => some (5, .operator .mul)
  | .symbol .slash => some (5, .operator .div)
  | .symbol .percent => some (5, .operator .rem)
  | .symbol .plus => some (4, .operator .add)
  | .symbol .minus => some (4, .operator .sub)
  | .symbol .less => some (3, .operator .less)
  | .symbol .greater => some (3, .operator .greater)
  | .symbol .lessEqual => some (3, .operator .lessEqual)
  | .symbol .greaterEqual => some (3, .operator .greaterEqual)
  | .symbol .equal => some (3, .operator .equal)
  | .symbol .notEqual => some (3, .operator .notEqual)
  | .keyword .kwAnd => some (1, .operator .and)
  | .keyword .kwOr => some (1, .operator .or)
  | _ => none

/-- What may start an operand: all of it, a bracketed form, or an operator in front of an operand
with how tightly it holds it. -/
inductive Opening where
  | leaf (make : Location → Expr)
  | parentheses
  | brackets
  | braces
  | operator (power : Nat) (op : UnaryOp)

/-- What a token means at the start of an operand. -/
def opening? : Token → Option Opening
  | .name s => some (.leaf (.name · s))
  | .int n => some (.leaf (.int · n))
  | .float x => some (.leaf (.float · x))
  | .text s => some (.leaf (.text · s))
  | .keyword k =>
    match k with
    | .kwNull => some (.leaf .null)
    | .kwNot => some (.operator 2 .not)
    | _ => none
  | .symbol s =>
    match s with
    | .openParen => some .parentheses
    | .openBracket => some .brackets
    | .openBrace => some .braces
    | .minus => some (.operator 6 .negate)
    | _ => none

/-- The index of a tuple's item, which has 32 bits. -/
def tupleIndex? (n : Int64) : Option UInt32 :=
  if 0 ≤ n.toInt ∧ n.toInt < 4294967296 then some (UInt32.ofNat n.toInt.toNat) else none

/-- Takes a symbol if it comes next. -/
def take? (s : Symbol) (ts : List Lexeme) : Option (Read Unit ts.length) :=
  match ts with
  | ⟨.symbol s', _⟩ :: rest => if s' = s then some ⟨(), rest, Nat.lt_succ_self _⟩ else none
  | _ => none

/-- Takes a symbol that has to come next. -/
def expect (eof : Location) (s : Symbol) (cause : Cause) (ts : List Lexeme) :
    Except Diagnostic (Read Unit ts.length) :=
  match take? s ts with
  | some r => .ok r
  | none => refuse eof ts cause

/-- Takes a name that has to come next. -/
def expectName (eof : Location) (cause : Cause) (ts : List Lexeme) :
    Except Diagnostic (Read String ts.length) :=
  match ts with
  | ⟨.name s, _⟩ :: rest => .ok ⟨s, rest, Nat.lt_succ_self _⟩
  | ts => refuse eof ts cause

/-- Takes the comma between two items, or sees the closing symbol, which it leaves. -/
def separator (eof : Location) (close : Symbol) (ts : List Lexeme) :
    Except Diagnostic (Read Unit (ts.length + 1)) :=
  match take? .comma ts with
  | some r => .ok (r.weaken (Nat.le_succ _))
  | none =>
    match take? close ts with
    | some _ => .ok ⟨(), ts, Nat.lt_succ_self _⟩
    | none => refuse eof ts .missingComma

/-- Reads parameter names up to the closing parenthesis, which it takes. -/
def parseParams (eof : Location) (ts : List Lexeme) : Except Diagnostic (Read (List String) ts.length) :=
  match take? .closeParen ts with
  | some ⟨_, rest, h⟩ => .ok ⟨[], rest, h⟩
  | none => do
    let ⟨s, rest₁, h₁⟩ ← expectName eof .missingParameterName ts
    let ⟨_, rest₂, h₂⟩ ← separator eof .closeParen rest₁
    let ⟨more, rest₃, h₃⟩ ← parseParams eof rest₂
    return ⟨s :: more, rest₃, by omega⟩
termination_by ts.length

/-- Reads the member name or tuple index after a point. -/
def parseMember (eof : Location) (acc : Expr) (loc : Location) (ts : List Lexeme) :
    Except Diagnostic (Read Expr (ts.length + 1)) :=
  match ts with
  | ⟨.int n, l⟩ :: rest =>
    match tupleIndex? n with
    | some index => .ok ⟨.tupleMember loc acc index, rest, by simp only [List.length_cons]; omega⟩
    | none => refuse eof (⟨.int n, l⟩ :: rest) .numberOutOfRange
  | ⟨.name s, _⟩ :: rest =>
    .ok ⟨.objectMember loc acc s, rest, by simp only [List.length_cons]; omega⟩
  | ts => refuse eof ts .invalidMember

/-- The expression in parentheses: one stands for itself, several make a tuple. -/
def parenthesized (loc : Location) : List Expr → Except Diagnostic Expr
  | [] => .error ⟨.emptyParentheses, loc⟩
  | [e] => .ok e
  | values => .ok (.tuple loc values)

mutual

/-- Reads an expression whose operators hold tighter than `power`. -/
def parseExpr (eof : Location) (depth power : Nat) (ts : List Lexeme) :
    Except Diagnostic (Read Expr ts.length) :=
  if maxNesting ≤ depth then refuse eof ts .nestedTooDeep
  else do
    let ⟨value, rest, h⟩ ← parseValue eof (depth + 1) ts
    let ⟨e, rest', h'⟩ ← foldExpr eof (depth + 1) power value rest
    return ⟨e, rest', by omega⟩
termination_by (ts.length, 2)

/-- Folds operators and postfix forms that hold tighter than `power` into their left operand. -/
def foldExpr (eof : Location) (depth power : Nat) (acc : Expr) (ts : List Lexeme) :
    Except Diagnostic (Read Expr (ts.length + 1)) :=
  match ts with
  | [] => .ok ⟨acc, [], Nat.lt_succ_self _⟩
  | ⟨t, loc⟩ :: rest =>
    match follower? t with
    | none => .ok ⟨acc, ⟨t, loc⟩ :: rest, Nat.lt_succ_self _⟩
    | some (p, follower) =>
      if p ≤ power then .ok ⟨acc, ⟨t, loc⟩ :: rest, Nat.lt_succ_self _⟩
      else if maxNesting ≤ depth then refuse eof rest .nestedTooDeep
      else do
        let ⟨acc', rest', h⟩ ← parseFollower eof (depth + 1) p acc follower loc rest
        let ⟨e, rest'', h'⟩ ← foldExpr eof (depth + 1) power acc' rest'
        return ⟨e, rest'', by simp only [List.length_cons]; omega⟩
termination_by (ts.length, 0)

/-- Reads what belongs to a follower, and takes the operand `acc` in. Only names can be called. -/
def parseFollower (eof : Location) (depth power : Nat) (acc : Expr) (follower : Follower)
    (loc : Location) (ts : List Lexeme) : Except Diagnostic (Read Expr (ts.length + 1)) :=
  match follower with
  | .call =>
    match acc with
    | .name _ callee => do
      let ⟨args, rest, h⟩ ← parseItems eof depth .closeParen ts
      return ⟨.call loc callee args, rest, by omega⟩
    | _ => .error ⟨.callOfExpression, loc⟩
  | .member => parseMember eof acc loc ts
  | .element => do
    let ⟨index, rest, h⟩ ← parseExpr eof depth 0 ts
    let ⟨_, rest', h'⟩ ← expect eof .closeBracket .missingCloseBracket rest
    return ⟨.element loc acc index, rest', by omega⟩
  | .operator op => do
    let ⟨right, rest, h⟩ ← parseExpr eof depth power ts
    return ⟨.binary loc op acc right, rest, by omega⟩
termination_by (ts.length, 4)

/-- Reads a literal, a name, a bracketed form or an operator with its operand. -/
def parseValue (eof : Location) (depth : Nat) (ts : List Lexeme) :
    Except Diagnostic (Read Expr ts.length) :=
  match ts with
  | [] => refuse eof [] .missingValue
  | ⟨t, loc⟩ :: rest =>
    match opening? t with
    | none => .error ⟨.missingValue, loc⟩
    | some (.leaf make) => .ok ⟨make loc, rest, Nat.lt_succ_self _⟩
    | some .parentheses => do
      let ⟨values, rest', h⟩ ← parseItems eof depth .closeParen rest
      let e ← parenthesized loc values
      return ⟨e, rest', Nat.lt_succ_of_lt h⟩
    | some .brackets => do
      let ⟨values, rest', h⟩ ← parseItems eof depth .closeBracket rest
      return ⟨.array loc values, rest', Nat.lt_succ_of_lt h⟩
    | some .braces => do
      let ⟨members, rest', h⟩ ← parseMembers eof depth rest
      return ⟨.object loc members, rest', Nat.lt_succ_of_lt h⟩
    | some (.operator power op) => do
      let ⟨operand, rest', h⟩ ← parseExpr eof depth power rest
      return ⟨.unary loc op operand, rest', Nat.lt_succ_of_lt h⟩
termination_by (ts.length, 0)

/-- Reads expressions between commas up to a closing symbol, which it takes. -/
def parseItems (eof : Location) (depth : Nat) (close : Symbol) (ts : List Lexeme) :
    Except Diagnostic (Read (List Expr) ts.length) :=
  match take? close ts with
  | some ⟨_, rest, h⟩ => .ok ⟨[], rest, h⟩
  | none => do
    let ⟨e, rest₁, h₁⟩ ← parseExpr eof depth 0 ts
    let ⟨_, rest₂, h₂⟩ ← separator eof close rest₁
    let ⟨more, rest₃, h₃⟩ ← parseItems eof depth close rest₂
    return ⟨e :: more, rest₃, by omega⟩
termination_by (ts.length, 3)

/-- Reads the members of an object up to the closing brace, which it takes. -/
def parseMembers (eof : Location) (depth : Nat) (ts : List Lexeme) :
    Except Diagnostic (Read (List (String × Expr)) ts.length) :=
  match take? .closeBrace ts with
  | some ⟨_, rest, h⟩ => .ok ⟨[], rest, h⟩
  | none => do
    let ⟨s, rest₁, h₁⟩ ← expectName eof .missingMemberName ts
    let ⟨_, rest₂, h₂⟩ ← expect eof .assign .missingMemberEquals rest₁
    let ⟨e, rest₃, h₃⟩ ← parseExpr eof depth 0 rest₂
    let ⟨_, rest₄, h₄⟩ ← separator eof .closeBrace rest₃
    let ⟨more, rest₅, h₅⟩ ← parseMembers eof depth rest₄
    return ⟨(s, e) :: more, rest₅, by omega⟩
termination_by (ts.length, 3)

end

mutual

/-- Reads one statement. -/
def parseStmt (eof : Location) (depth : Nat) (ts : List Lexeme) :
    Except Diagnostic (Read Stmt ts.length) :=
  match ts with
  | ⟨.keyword .kwContinue, loc⟩ :: rest => .ok ⟨.continueLoop loc, rest, Nat.lt_succ_self _⟩
  | ⟨.keyword .kwBreak, loc⟩ :: rest => .ok ⟨.breakLoop loc, rest, Nat.lt_succ_self _⟩
  | ⟨.keyword .kwReturn, loc⟩ :: rest => do
    let ⟨value, rest', h⟩ ← parseExpr eof depth 0 rest
    return ⟨.giveBack loc value, rest', Nat.lt_succ_of_lt h⟩
  | ⟨.keyword .kwLoop, loc⟩ :: rest => do
    let ⟨body, rest', h⟩ ← parseBlock eof depth rest
    return ⟨.loop loc body, rest', Nat.lt_succ_of_lt h⟩
  | ⟨.keyword .kwTick, loc⟩ :: rest => do
    let ⟨body, rest', h⟩ ← parseBlock eof depth rest
    return ⟨.tick loc body, rest', Nat.lt_succ_of_lt h⟩
  | ⟨.keyword .kwWhile, loc⟩ :: rest => do
    let ⟨cond, rest', h⟩ ← parseExpr eof depth 0 rest
    let ⟨body, rest'', h'⟩ ← parseBlock eof depth rest'
    return ⟨.whileLoop loc cond body, rest'', by simp only [List.length_cons]; omega⟩
  | ⟨.keyword .kwVar, loc⟩ :: rest => do
    let ⟨s, rest₁, h₁⟩ ← expectName eof .missingVariableName rest
    let ⟨_, rest₂, h₂⟩ ← expect eof .assign .missingVariableEquals rest₁
    let ⟨value, rest₃, h₃⟩ ← parseExpr eof depth 0 rest₂
    return ⟨.declare loc s value, rest₃, by simp only [List.length_cons]; omega⟩
  | ⟨.keyword .kwIf, loc⟩ :: rest => do
    let ⟨cond, rest₁, h₁⟩ ← parseExpr eof depth 0 rest
    let ⟨yes, rest₂, h₂⟩ ← parseBlock eof depth rest₁
    let ⟨no, rest₃, h₃⟩ ← parseElse eof depth rest₂
    return ⟨.branch loc cond yes no, rest₃, by simp only [List.length_cons]; omega⟩
  | ⟨.keyword .kwFun, loc⟩ :: rest => do
    let ⟨s, rest₁, h₁⟩ ← expectName eof .missingFunctionName rest
    let ⟨_, rest₂, h₂⟩ ← expect eof .openParen .missingParameterList rest₁
    let ⟨params, rest₃, h₃⟩ ← parseParams eof rest₂
    let ⟨body, rest₄, h₄⟩ ← parseBlock eof depth rest₃
    return ⟨.function loc s params body, rest₄, by simp only [List.length_cons]; omega⟩
  | ts => do
    let ⟨target, rest, h⟩ ← parseExpr eof depth 0 ts
    match rest, h with
    | ⟨.symbol .assign, loc⟩ :: rest', h => do
      let ⟨value, rest'', h'⟩ ← parseExpr eof depth 0 rest'
      return ⟨.assign loc target value, rest'', by simp only [List.length_cons] at h; omega⟩
    | rest, h => return ⟨.expr (here eof ts) target, rest, h⟩
termination_by (ts.length, 3)

/-- Reads what follows the first block of an `if`: nothing, another `if`, or a block. -/
def parseElse (eof : Location) (depth : Nat) (ts : List Lexeme) :
    Except Diagnostic (Read (List Stmt) (ts.length + 1)) :=
  match ts with
  | ⟨.keyword .kwElse, _⟩ :: rest =>
    match rest with
    | ⟨.keyword .kwIf, loc⟩ :: more =>
      if maxNesting ≤ depth then refuse eof (⟨.keyword .kwIf, loc⟩ :: more) .nestedTooDeep
      else do
        let ⟨chained, rest', h⟩ ← parseStmt eof (depth + 1) (⟨.keyword .kwIf, loc⟩ :: more)
        return ⟨[chained], rest', by simp only [List.length_cons] at h ⊢; omega⟩
    | rest => do
      let ⟨no, rest', h⟩ ← parseBlock eof depth rest
      return ⟨no, rest', by simp only [List.length_cons]; omega⟩
  | ts => .ok ⟨[], ts, Nat.lt_succ_self _⟩
termination_by (ts.length, 0)

/-- Reads statements between braces. -/
def parseBlock (eof : Location) (depth : Nat) (ts : List Lexeme) :
    Except Diagnostic (Read (List Stmt) ts.length) := do
  let ⟨_, rest, h⟩ ← expect eof .openBrace .missingOpenBrace ts
  if maxNesting ≤ depth then refuse eof rest .nestedTooDeep
  else do
    let ⟨body, rest', h'⟩ ← parseStmts eof (depth + 1) rest
    let ⟨_, rest'', h''⟩ ← expect eof .closeBrace .missingCloseBrace rest'
    return ⟨body, rest'', by omega⟩
termination_by (ts.length, 0)

/-- Reads statements up to a closing brace or the end. -/
def parseStmts (eof : Location) (depth : Nat) (ts : List Lexeme) :
    Except Diagnostic (Read (List Stmt) (ts.length + 1)) :=
  if ts.isEmpty || (take? .closeBrace ts).isSome then .ok ⟨[], ts, Nat.lt_succ_self _⟩
  else do
    let ⟨s, rest₁, h₁⟩ ← parseStmt eof depth ts
    let ⟨more, rest₂, h₂⟩ ← parseStmts eof depth rest₁
    return ⟨s :: more, rest₂, by omega⟩
termination_by (ts.length, 4)

end

/-- Where a failure at the end of the input is reported: at the last lexeme. -/
def endOf (ts : List Lexeme) : Location :=
  match ts.getLast? with
  | some l => l.location
  | none => ⟨1, Location.noFile⟩

/-- Reads a whole script. A closing brace that nothing opened is refused. -/
def parse (ts : List Lexeme) : Except Diagnostic (List Stmt) := do
  let ⟨stmts, rest, _⟩ ← parseStmts (endOf ts) 0 ts
  match rest with
  | [] => return stmts
  | rest => refuse (endOf ts) rest .missingValue

/-- Reads the expression at the front of the input; what follows it is left alone. -/
def parseLeading (power : Nat) (ts : List Lexeme) : Except Diagnostic Expr := do
  let r ← parseExpr (endOf ts) 0 power ts
  return r.value

end TickScript.Parser
