import TickScript.Value
import TickScript.Syntax
import TickScript.Cause

/-!
# Operators on values

Arithmetic takes two integers or two floats and never mixes them. Integers wrap at 64 bits, and their
division cuts toward zero; floats are binary64. Comparison by size is for numbers only, equality is
for all values. The result of a logical operator is one of its operands.
-/

namespace TickScript

/-- The value of an operator in front of an operand. -/
def UnaryOp.apply : UnaryOp → Value → Except Cause Value
  | .negate, .int n => .ok (.int (-n))
  | .negate, .float x => .ok (.float (-x))
  | .negate, _ => .error .notNumbers
  | .not, v => .ok (.ofBool (! v.isTruthy))

/-- The value of an arithmetic operator, given on integers and on floats. -/
def arithmetic (onInts : Int64 → Int64 → Except Cause Int64) (onFloats : Float → Float → Float) :
    Value → Value → Except Cause Value
  | .int a, .int b => (onInts a b).map .int
  | .float a, .float b => .ok (.float (onFloats a b))
  | _, _ => .error .notNumbers

/-- The value of a comparison by size, given on integers and on floats. -/
def comparison (onInts : Int64 → Int64 → Bool) (onFloats : Float → Float → Bool) :
    Value → Value → Except Cause Value
  | .int a, .int b => .ok (.ofBool (onInts a b))
  | .float a, .float b => .ok (.ofBool (onFloats a b))
  | _, _ => .error .notNumbers

/-- An integer operation that has no result by zero. -/
def unlessZero (f : Int64 → Int64 → Int64) (a b : Int64) : Except Cause Int64 :=
  if b = 0 then .error .divisionByZero else .ok (f a b)

/-- The value of an operator between two operands. -/
def BinaryOp.apply : BinaryOp → Value → Value → Except Cause Value
  | .add => arithmetic (fun a b => .ok (a + b)) (· + ·)
  | .sub => arithmetic (fun a b => .ok (a - b)) (· - ·)
  | .mul => arithmetic (fun a b => .ok (a * b)) (· * ·)
  | .div => arithmetic (unlessZero (· / ·)) (· / ·)
  | .rem => arithmetic (unlessZero (· % ·)) Binary64.remainder
  | .less => comparison (fun a b => a < b) (fun a b => a < b)
  | .lessEqual => comparison (fun a b => a ≤ b) (fun a b => a ≤ b)
  | .greater => comparison (fun a b => b < a) (fun a b => b < a)
  | .greaterEqual => comparison (fun a b => b ≤ a) (fun a b => b ≤ a)
  | .equal => fun a b => .ok (.ofBool (a.equal b))
  | .notEqual => fun a b => .ok (.ofBool (! a.equal b))
  | .and => fun a b => .ok (if a.isTruthy then b else a)
  | .or => fun a b => .ok (if a.isTruthy then a else b)

end TickScript
