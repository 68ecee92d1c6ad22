import TickScript.Syntax.Parser

/-!
# Printed scripts

A tree is printed with parentheses exactly where a reader by precedence needs them. Every expression
has a **power**, how tightly it holds together, and every place asks for a least power; an expression
of less power stands in parentheses there. Statements follow one another with nothing between them.

Beside the tokens of a tree stands what reading them back costs. A reader counts one level for each
expression, each fold of an operator or postfix form into its left operand, and each block. The
**spine** of an expression is the count behind it, when it is read from count zero; its **levels** are
the highest count on the way. A left operand is read before its operator is seen, so what it used is
given back and only its spine stays.
-/

namespace TickScript

/-! ## Powers -/

/-- How tightly the operator holds its operand. -/
def UnaryOp.power : UnaryOp → Nat
  | negate => 6
  | not => 2

/-- The operator as it stands in a script. -/
def UnaryOp.token : UnaryOp → Token
  | negate => .symbol .minus
  | not => .keyword .kwNot

/-- How tightly the operator holds its operands. -/
def BinaryOp.power : BinaryOp → Nat
  | mul | div | rem => 5
  | add | sub => 4
  | less | lessEqual | greater | greaterEqual | equal | notEqual => 3
  | and | or => 1

/-- The operator as it stands in a script. -/
def BinaryOp.token : BinaryOp → Token
  | add => .symbol .plus
  | sub => .symbol .minus
  | mul => .symbol .star
  | div => .symbol .slash
  | rem => .symbol .percent
  | less => .symbol .less
  | lessEqual => .symbol .lessEqual
  | greater => .symbol .greater
  | greaterEqual => .symbol .greaterEqual
  | equal => .symbol .equal
  | notEqual => .symbol .notEqual
  | and => .keyword .kwAnd
  | or => .keyword .kwOr

/-- How tightly an expression holds together: as its outermost operator, or else not to be split. -/
def Expr.power : Expr → Nat
  | unary _ op _ => op.power
  | binary _ op _ _ => op.power
  | _ => 7

/-! ## Tokens -/

/-- Tokens of some power where at least `least` is asked for. -/
def fenced (least power : Nat) (ts : List Token) : List Token :=
  if power < least then .symbol .openParen :: (ts ++ [.symbol .closeParen]) else ts

/-- Further items in a list, with a comma in front if there are any. -/
def furtherItems : List Token → List Token
  | [] => []
  | ts => .symbol .comma :: ts

/-- The tokens of a block. -/
def braced (ts : List Token) : List Token :=
  .symbol .openBrace :: (ts ++ [.symbol .closeBrace])

mutual

/-- The tokens of an expression where a power of at least `least` is asked for. -/
def Expr.tokens (least : Nat) : Expr → List Token
  | .name _ s => [.name s]
  | .null _ => [.keyword .kwNull]
  | .int _ n => [.int n]
  | .float _ x => [.float x]
  | .text _ s => [.text s]
  | .tuple _ items => .symbol .openParen :: (itemTokens items ++ [.symbol .closeParen])
  | .object _ members => .symbol .openBrace :: (memberTokens members ++ [.symbol .closeBrace])
  | .array _ items => .symbol .openBracket :: (itemTokens items ++ [.symbol .closeBracket])
  | .call _ callee args =>
    .name callee :: .symbol .openParen :: (itemTokens args ++ [.symbol .closeParen])
  | .tupleMember _ base index =>
    base.tokens 7 ++ [.symbol .dot, .int (Int64.ofNat index.toNat)]
  | .objectMember _ base member => base.tokens 7 ++ [.symbol .dot, .name member]
  | .element _ base index =>
    base.tokens 7 ++ .symbol .openBracket :: (index.tokens 0 ++ [.symbol .closeBracket])
  | .unary _ op operand => fenced least op.power (op.token :: operand.tokens op.power)
  | .binary _ op left right =>
    fenced least op.power (left.tokens op.power ++ op.token :: right.tokens (op.power + 1))

/-- The tokens of expressions between commas. -/
def Expr.itemTokens : List Expr → List Token
  | [] => []
  | e :: es => e.tokens 0 ++ furtherItems (itemTokens es)

/-- The tokens of an object's members between commas. -/
def Expr.memberTokens : List (String × Expr) → List Token
  | [] => []
  | (s, e) :: more => .name s :: .symbol .assign :: (e.tokens 0 ++ furtherItems (memberTokens more))

end

/-- The tokens of parameters between commas. -/
def paramTokens : List String → List Token
  | [] => []
  | s :: params => .name s :: furtherItems (paramTokens params)

/-- The tokens after the first block of an `if` whose other statements have the tokens `ts`. -/
def elseTokens : List Stmt → List Token → List Token
  | [], _ => []
  | [.branch _ _ _ _], ts => .keyword .kwElse :: ts
  | _, ts => .keyword .kwElse :: braced ts

mutual

/-- The tokens of a statement. -/
def Stmt.tokens : Stmt → List Token
  | .assign _ target value => target.tokens 0 ++ .symbol .assign :: value.tokens 0
  | .branch _ cond yes no =>
    .keyword .kwIf :: (cond.tokens 0 ++ (braced (tokensAll yes) ++ elseTokens no (tokensAll no)))
  | .loop _ body => .keyword .kwLoop :: braced (tokensAll body)
  | .tick _ body => .keyword .kwTick :: braced (tokensAll body)
  | .whileLoop _ cond body => .keyword .kwWhile :: (cond.tokens 0 ++ braced (tokensAll body))
  | .continueLoop _ => [.keyword .kwContinue]
  | .breakLoop _ => [.keyword .kwBreak]
  | .giveBack _ value => .keyword .kwReturn :: value.tokens 0
  | .declare _ declared value =>
    .keyword .kwVar :: .name declared :: .symbol .assign :: value.tokens 0
  | .function _ declared params body =>
    .keyword .kwFun :: .name declared :: .symbol .openParen ::
      (paramTokens params ++ .symbol .closeParen :: braced (tokensAll body))
  | .expr _ value => value.tokens 0

/-- The tokens of statements. -/
def Stmt.tokensAll : List Stmt → List Token
  | [] => []
  | s :: ss => s.tokens ++ tokensAll ss

end

/-! ## What can be printed -/

mutual

/-- Whether every tuple in an expression has two items or more. -/
def Expr.full : Expr → Bool
  | .name _ _ | .null _ | .int _ _ | .float _ _ | .text _ _ => true
  | .tuple _ items => decide (2 ≤ items.length) && fullItems items
  | .object _ members => fullMembers members
  | .array _ items | .call _ _ items => fullItems items
  | .tupleMember _ base _ | .objectMember _ base _ => base.full
  | .element _ base index => base.full && index.full
  | .unary _ _ operand => operand.full
  | .binary _ _ left right => left.full && right.full

/-- Whether every tuple in expressions has two items or more. -/
def Expr.fullItems : List Expr → Bool
  | [] => true
  | e :: es => e.full && fullItems es

/-- Whether every tuple in an object's members has two items or more. -/
def Expr.fullMembers : List (String × Expr) → Bool
  | [] => true
  | (_, e) :: more => e.full && fullMembers more

end

/-- Whether a statement ends in an expression. -/
def Stmt.endsOpen : Stmt → Bool
  | .assign _ _ _ | .giveBack _ _ | .declare _ _ _ | .expr _ _ => true
  | _ => false

/-- Whether a token that may start a statement may also go on with an expression before it. -/
def Token.joins : Token → Bool
  | .symbol .openParen | .symbol .openBracket | .symbol .minus => true
  | _ => false

/-- Whether the first token of a statement may go on with an expression before it. -/
def Stmt.joins (s : Stmt) : Bool := s.tokens.head?.any Token.joins

mutual

/-- Whether the tuples of a statement are full, and no statement in it that ends in an expression is
directly followed by one that goes on with it. -/
def Stmt.printable : Stmt → Bool
  | .assign _ target value => target.full && value.full
  | .branch _ cond yes no => cond.full && printableAll yes && printableAll no
  | .loop _ body | .tick _ body | .function _ _ _ body => printableAll body
  | .whileLoop _ cond body => cond.full && printableAll body
  | .continueLoop _ | .breakLoop _ => true
  | .giveBack _ value | .declare _ _ value | .expr _ value => value.full

/-- Whether statements can be printed one after the other. -/
def Stmt.printableAll : List Stmt → Bool
  | [] => true
  | s :: ss => s.printable && !(s.endsOpen && ss.head?.any Stmt.joins) && printableAll ss

end

/-! ## What is left of a tree without its locations -/

mutual

/-- The expression with every location forgotten. -/
def Expr.unlocated : Expr → Expr
  | .name _ s => .name default s
  | .null _ => .null default
  | .int _ n => .int default n
  | .float _ x => .float default x
  | .text _ s => .text default s
  | .tuple _ items => .tuple default (unlocatedItems items)
  | .object _ members => .object default (unlocatedMembers members)
  | .array _ items => .array default (unlocatedItems items)
  | .call _ callee args => .call default callee (unlocatedItems args)
  | .tupleMember _ base index => .tupleMember default base.unlocated index
  | .objectMember _ base member => .objectMember default base.unlocated member
  | .element _ base index => .element default base.unlocated index.unlocated
  | .unary _ op operand => .unary default op operand.unlocated
  | .binary _ op left right => .binary default op left.unlocated right.unlocated

/-- Expressions with every location forgotten. -/
def Expr.unlocatedItems : List Expr → List Expr
  | [] => []
  | e :: es => e.unlocated :: unlocatedItems es

/-- An object's members with every location forgotten. -/
def Expr.unlocatedMembers : List (String × Expr) → List (String × Expr)
  | [] => []
  | (s, e) :: more => (s, e.unlocated) :: unlocatedMembers more

end

theorem Expr.unlocatedItems_eq_map (es : List Expr) : unlocatedItems es = es.map unlocated := by
  induction es with
  | nil => rfl
  | cons e es ih => rw [unlocatedItems, ih, List.map_cons]

mutual

/-- The statement with every location forgotten. -/
def Stmt.unlocated : Stmt → Stmt
  | .assign _ target value => .assign default target.unlocated value.unlocated
  | .branch _ cond yes no => .branch default cond.unlocated (unlocatedAll yes) (unlocatedAll no)
  | .loop _ body => .loop default (unlocatedAll body)
  | .tick _ body => .tick default (unlocatedAll body)
  | .whileLoop _ cond body => .whileLoop default cond.unlocated (unlocatedAll body)
  | .continueLoop _ => .continueLoop default
  | .breakLoop _ => .breakLoop default
  | .giveBack _ value => .giveBack default value.unlocated
  | .declare _ declared value => .declare default declared value.unlocated
  | .function _ declared params body => .function default declared params (unlocatedAll body)
  | .expr _ value => .expr default value.unlocated

/-- Statements with every location forgotten. -/
def Stmt.unlocatedAll : List Stmt → List Stmt
  | [] => []
  | s :: ss => s.unlocated :: unlocatedAll ss

end

/-! ## What reading back costs -/

/-- The count behind an expression, where a power of at least `least` is asked for. Parentheses are
one value, whatever they hold. -/
def Expr.spine (least : Nat) : Expr → Nat
  | .call _ _ _ => 2
  | .tupleMember _ base _ | .objectMember _ base _ | .element _ base _ => base.spine 7 + 1
  | .binary _ op left _ => if op.power < least then 1 else left.spine op.power + 1
  | _ => 1

/-- The levels of an expression of some power where at least `least` is asked for. -/
def fencedLevels (least power levels : Nat) : Nat :=
  if power < least then levels + 1 else levels

mutual

/-- The highest count while an expression is read, where a power of at least `least` is asked for. -/
def Expr.levels (least : Nat) : Expr → Nat
  | .name _ _ | .null _ | .int _ _ | .float _ _ | .text _ _ => 1
  | .tuple _ items | .array _ items => itemLevels items + 1
  | .object _ members => memberLevels members + 1
  | .call _ _ args => itemLevels args + 2
  | .tupleMember _ base _ | .objectMember _ base _ => max (base.levels 7) (base.spine 7 + 1)
  | .element _ base index => max (base.levels 7) (base.spine 7 + 1 + index.levels 0)
  | .unary _ op operand => fencedLevels least op.power (operand.levels op.power + 1)
  | .binary _ op left right =>
    fencedLevels least op.power
      (max (left.levels op.power) (left.spine op.power + 1 + right.levels (op.power + 1)))

/-- The highest count while expressions between commas are read. -/
def Expr.itemLevels : List Expr → Nat
  | [] => 0
  | e :: es => max (e.levels 0) (itemLevels es)

/-- The highest count while an object's members are read. -/
def Expr.memberLevels : List (String × Expr) → Nat
  | [] => 0
  | (_, e) :: more => max (e.levels 0) (memberLevels more)

end

mutual

/-- The highest count while a statement is read. -/
def Stmt.levels : Stmt → Nat
  | .assign _ target value => max (target.levels 0) (value.levels 0)
  | .branch _ cond yes no =>
    max (cond.levels 0) (max (levelsAll yes + 1) (if no.isEmpty then 0 else levelsAll no + 1))
  | .loop _ body | .tick _ body | .function _ _ _ body => levelsAll body + 1
  | .whileLoop _ cond body => max (cond.levels 0) (levelsAll body + 1)
  | .continueLoop _ | .breakLoop _ => 0
  | .giveBack _ value | .declare _ _ value | .expr _ value => value.levels 0

/-- The highest count while statements are read. -/
def Stmt.levelsAll : List Stmt → Nat
  | [] => 0
  | s :: ss => max s.levels (levelsAll ss)

end

end TickScript
