import TickScript.Location

/-!
# Statements and expressions

A script is a list of statements. Every node carries the location of the token it started at; a node
that is made by an operator or a postfix form starts at that operator or form, because that is where
its failure is reported.
-/

namespace TickScript

/-- Operators in front of one operand. -/
inductive UnaryOp where
  | negate
  | not
deriving Repr, DecidableEq

/-- Operators between two operands. -/
inductive BinaryOp where
  | add
  | sub
  | mul
  | div
  | rem
  | less
  | lessEqual
  | greater
  | greaterEqual
  | equal
  | notEqual
  | and
  | or
deriving Repr, DecidableEq

/-- Expressions. Calls are made on plain names only, a tuple has at least two items where a parser
made it, and the order of an object's members is part of its shape. -/
inductive Expr where
  | name (loc : Location) (s : String)
  | null (loc : Location)
  | int (loc : Location) (n : Int64)
  | float (loc : Location) (x : Float)
  | text (loc : Location) (s : String)
  | tuple (loc : Location) (items : List Expr)
  | object (loc : Location) (members : List (String × Expr))
  | array (loc : Location) (items : List Expr)
  | call (loc : Location) (callee : String) (args : List Expr)
  | tupleMember (loc : Location) (base : Expr) (index : UInt32)
  | objectMember (loc : Location) (base : Expr) (member : String)
  | element (loc : Location) (base index : Expr)
  | unary (loc : Location) (op : UnaryOp) (operand : Expr)
  | binary (loc : Location) (op : BinaryOp) (left right : Expr)
deriving Repr

/-- Where an expression is reported. -/
def Expr.location : Expr → Location
  | name loc _ | null loc | int loc _ | float loc _ | text loc _ | tuple loc _ | object loc _
  | array loc _ | call loc _ _ | tupleMember loc _ _ | objectMember loc _ _ | element loc _ _
  | unary loc _ _ | binary loc _ _ _ => loc

/-- Statements. Any expression may stand on the left of an assignment; whether it can be assigned to
is decided later. -/
inductive Stmt where
  | assign (loc : Location) (target value : Expr)
  | branch (loc : Location) (cond : Expr) (yes no : List Stmt)
  | loop (loc : Location) (body : List Stmt)
  | tick (loc : Location) (body : List Stmt)
  | whileLoop (loc : Location) (cond : Expr) (body : List Stmt)
  | continueLoop (loc : Location)
  | breakLoop (loc : Location)
  | giveBack (loc : Location) (value : Expr)
  | declare (loc : Location) (declared : String) (value : Expr)
  | function (loc : Location) (declared : String) (params : List String) (body : List Stmt)
  | expr (loc : Location) (value : Expr)
deriving Repr

/-- Where a statement is reported. -/
def Stmt.location : Stmt → Location
  | assign loc _ _ | branch loc _ _ _ | loop loc _ | tick loc _ | whileLoop loc _ _
  | continueLoop loc | breakLoop loc | giveBack loc _ | declare loc _ _ | function loc _ _ _
  | expr loc _ => loc

end TickScript
