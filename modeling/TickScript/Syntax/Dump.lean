import TickScript.Syntax.Outline

/-!
# Dumps

A tree on many lines, one level of indentation a level of the tree. A dump is first a plain tree of
records, variants and lists; `Dump.lines` lays any such tree out, so the layout is decided in one
place and the trees of the language only say what their parts are called.
-/

namespace TickScript

/-- What a dump can show. -/
inductive Dump where
  | atom (s : String)
  | record (label : String) (fields : List (String × Dump))
  | variant (label : String) (parts : List Dump)
  | list (items : List Dump)

namespace Dump

/-- The lines of a part that stands inside another: indented, headed by what it is called and closed
by a comma. -/
def nest (head : String) : List String → List String
  | [] => []
  | [only] => ["    " ++ head ++ only ++ ","]
  | first :: rest =>
    ("    " ++ head ++ first) :: (rest.dropLast.map ("    " ++ ·) ++
      (rest.getLast?.map fun last => "    " ++ last ++ ",").toList)

mutual

/-- The lines of a dump. -/
def lines : Dump → List String
  | .atom s => [s]
  | .record label fields => (label ++ " \x7b") :: (fieldLines fields ++ ["\x7d"])
  | .variant label parts => (label ++ "(") :: (partLines parts ++ [")"])
  | .list [] => ["[]"]
  | .list items => "[" :: (partLines items ++ ["]"])

/-- The lines of named parts. -/
def fieldLines : List (String × Dump) → List String
  | [] => []
  | (s, d) :: rest => nest (s ++ ": ") d.lines ++ fieldLines rest

/-- The lines of unnamed parts. -/
def partLines : List Dump → List String
  | [] => []
  | d :: rest => nest "" d.lines ++ partLines rest

end

/-- A quoted text. -/
def quoted (s : String) : Dump := atom (Text.quoted s)

/-- A location. -/
def ofLocation (loc : Location) : Dump :=
  record "Source" [("line", atom (toString loc.line)), ("file", quoted loc.file)]

/-- A node with its place. -/
def located (label : String) (kind : Dump) (loc : Location) : Dump :=
  record label [("kind", kind), ("source", ofLocation loc)]

mutual

/-- What an expression is made of. -/
def ofExpr : Expr → Dump
  | .name loc s => located "Expr" (variant "Identifier" [quoted s]) loc
  | .null loc => located "Expr" (atom "Null") loc
  | .int loc n => located "Expr" (variant "Int" [atom (Decimal.intText n.toInt)]) loc
  | .float loc x => located "Expr" (variant "Float" [atom (Decimal.floatText x)]) loc
  | .text loc s => located "Expr" (variant "String" [quoted s]) loc
  | .tuple loc items => located "Expr" (variant "Tuple" [list (ofExprs items)]) loc
  | .object loc members => located "Expr" (variant "Object" [list (ofMembers members)]) loc
  | .array loc items => located "Expr" (variant "Array" [list (ofExprs items)]) loc
  | .call loc callee args =>
    located "Expr" (record "Call" [("name", quoted callee), ("args", list (ofExprs args))]) loc
  | .tupleMember loc base index =>
    located "Expr" (record "TupleMember" [("value", ofExpr base), ("index", atom (toString index))]) loc
  | .objectMember loc base member =>
    located "Expr" (record "ObjectMember" [("value", ofExpr base), ("name", quoted member)]) loc
  | .element loc base index =>
    located "Expr" (record "Index" [("value", ofExpr base), ("index", ofExpr index)]) loc
  | .unary loc op operand =>
    located "Expr" (record "Unary" [("op", atom op.word), ("value", ofExpr operand)]) loc
  | .binary loc op left right =>
    located "Expr"
      (record "Binary" [("op", atom op.word), ("left", ofExpr left), ("right", ofExpr right)]) loc

/-- What several expressions are made of. -/
def ofExprs : List Expr → List Dump
  | [] => []
  | e :: es => ofExpr e :: ofExprs es

/-- What an object's members are made of. -/
def ofMembers : List (String × Expr) → List Dump
  | [] => []
  | (s, e) :: ms => variant "" [quoted s, ofExpr e] :: ofMembers ms

end

mutual

/-- What a statement is made of. -/
def ofStmt : Stmt → Dump
  | .assign loc target value =>
    located "Stmt" (record "Assign" [("target", ofExpr target), ("value", ofExpr value)]) loc
  | .branch loc cond yes no =>
    located "Stmt" (record "If" [("cond", ofExpr cond), ("then_body", list (ofStmts yes)),
      ("else_body", list (ofStmts no))]) loc
  | .loop loc body => located "Stmt" (variant "Loop" [list (ofStmts body)]) loc
  | .tick loc body => located "Stmt" (variant "Tick" [list (ofStmts body)]) loc
  | .whileLoop loc cond body =>
    located "Stmt" (record "While" [("cond", ofExpr cond), ("body", list (ofStmts body))]) loc
  | .continueLoop loc => located "Stmt" (atom "Continue") loc
  | .breakLoop loc => located "Stmt" (atom "Break") loc
  | .giveBack loc value => located "Stmt" (variant "Return" [ofExpr value]) loc
  | .declare loc s value =>
    located "Stmt" (record "Var" [("name", quoted s), ("value", ofExpr value)]) loc
  | .function loc s params body =>
    located "Stmt" (variant "Function" [record "FunctionDecl" [("name", quoted s),
      ("args", list (params.map quoted)), ("body", list (ofStmts body))]]) loc
  | .expr loc value => located "Stmt" (variant "Expr" [ofExpr value]) loc

/-- What several statements are made of. -/
def ofStmts : List Stmt → List Dump
  | [] => []
  | s :: ss => ofStmt s :: ofStmts ss

end

end Dump

/-- The dump of a script, line by line. -/
def dumpScript (script : List Stmt) : List String := (Dump.list (Dump.ofStmts script)).lines

end TickScript
