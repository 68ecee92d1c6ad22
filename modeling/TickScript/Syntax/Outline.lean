import TickScript.Syntax
import TickScript.Decimal.Notation
import TickScript.Text.Quoted

/-!
# Outlines

A tree on one line: every node in parentheses, headed by its kind and its place, followed by its
parts. Lists stand in brackets. The outline shows the whole tree, so two scripts with the same
outline are read in the same way.
-/

namespace TickScript

/-- The operator's word in outlines and dumps. -/
def UnaryOp.word : UnaryOp → String
  | .negate => "Negate"
  | .not => "Not"

/-- The operator's word in outlines and dumps. -/
def BinaryOp.word : BinaryOp → String
  | .add => "Add"
  | .sub => "Sub"
  | .mul => "Mul"
  | .div => "Div"
  | .rem => "Rem"
  | .less => "Lt"
  | .lessEqual => "Le"
  | .greater => "Gt"
  | .greaterEqual => "Ge"
  | .equal => "Eq"
  | .notEqual => "Ne"
  | .and => "And"
  | .or => "Or"

/-- A node of an outline. -/
def outlineNode (kind : String) (loc : Location) (parts : List String) : String :=
  "(" ++ " ".intercalate (s!"{kind}@{loc.file}:{loc.line}" :: parts) ++ ")"

/-- A list in an outline. -/
def outlineList (items : List String) : String := "[" ++ " ".intercalate items ++ "]"

mutual

/-- The expression on one line. -/
def Expr.outline : Expr → String
  | .name loc s => outlineNode "Identifier" loc [s]
  | .null loc => outlineNode "Null" loc []
  | .int loc n => outlineNode "Int" loc [Decimal.intText n.toInt]
  | .float loc x => outlineNode "Float" loc [Decimal.floatText x]
  | .text loc s => outlineNode "String" loc [Text.outlineQuoted s]
  | .tuple loc items => outlineNode "Tuple" loc [outlineList (outlineExprs items)]
  | .object loc members => outlineNode "Object" loc [outlineList (outlineMembers members)]
  | .array loc items => outlineNode "Array" loc [outlineList (outlineExprs items)]
  | .call loc callee args => outlineNode "Call" loc [callee, outlineList (outlineExprs args)]
  | .tupleMember loc base index => outlineNode "TupleMember" loc [base.outline, toString index]
  | .objectMember loc base member => outlineNode "ObjectMember" loc [base.outline, member]
  | .element loc base index => outlineNode "Index" loc [base.outline, index.outline]
  | .unary loc op operand => outlineNode "Unary" loc [op.word, operand.outline]
  | .binary loc op left right => outlineNode "Binary" loc [op.word, left.outline, right.outline]

/-- The outlines of several expressions. -/
def outlineExprs : List Expr → List String
  | [] => []
  | e :: es => e.outline :: outlineExprs es

/-- The outlines of an object's members. -/
def outlineMembers : List (String × Expr) → List String
  | [] => []
  | (s, e) :: ms => (s ++ "=" ++ e.outline) :: outlineMembers ms

end

mutual

/-- The statement on one line. -/
def Stmt.outline : Stmt → String
  | .assign loc target value => outlineNode "Assign" loc [target.outline, value.outline]
  | .branch loc cond yes no =>
    outlineNode "If" loc [cond.outline, outlineList (outlineStmts yes), outlineList (outlineStmts no)]
  | .loop loc body => outlineNode "Loop" loc [outlineList (outlineStmts body)]
  | .tick loc body => outlineNode "Tick" loc [outlineList (outlineStmts body)]
  | .whileLoop loc cond body => outlineNode "While" loc [cond.outline, outlineList (outlineStmts body)]
  | .continueLoop loc => outlineNode "Continue" loc []
  | .breakLoop loc => outlineNode "Break" loc []
  | .giveBack loc value => outlineNode "Return" loc [value.outline]
  | .declare loc s value => outlineNode "Var" loc [s, value.outline]
  | .function loc s params body =>
    outlineNode "Function" loc [s, outlineList params, outlineList (outlineStmts body)]
  | .expr loc value => outlineNode "Expr" loc [value.outline]

/-- The outlines of several statements. -/
def outlineStmts : List Stmt → List String
  | [] => []
  | s :: ss => s.outline :: outlineStmts ss

end

end TickScript
