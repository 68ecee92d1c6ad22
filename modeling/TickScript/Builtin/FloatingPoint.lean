import TickScript.Builtin.Standard

/-!
# Functions on floats

Integers are taken for the floats nearest to them, so these functions accept both kinds of number.
-/

namespace TickScript

namespace Builtin

variable {κ : Type}

/-- A number as a float. -/
def toFloat (m : Machine) : Value → Except Fault Float
  | .int n => .ok (Binary64.ofInt64 n)
  | .float x => .ok x
  | v => .error (notNumber m v)

/-- A function on one float. -/
def ofFloat (name : String) (cost : UInt32) (f : Float → Float) : Builtin κ :=
  ofResult name 1 cost fun m args =>
    match args with
    | [v] => (toFloat m v).map fun x => .float (f x)
    | _ => .error (wrongCount m)

/-- A function on two floats. -/
def ofFloats (name : String) (cost : UInt32) (f : Float → Float → Float) : Builtin κ :=
  ofResult name 2 cost fun m args =>
    match args with
    | [v, w] => do
      let x ← toFloat m v
      let y ← toFloat m w
      return .float (f x y)
    | _ => .error (wrongCount m)

/-- A number as an integer: a float loses what follows its point, and stays within 64 bits. -/
def int : Builtin κ :=
  ofResult "int" 1 1 fun m args =>
    match args with
    | [.int n] => .ok (.int n)
    | [.float x] => .ok (.int (Binary64.truncate x))
    | [v] => .error (notNumber m v)
    | _ => .error (wrongCount m)

end Builtin

/-- The functions on floats. -/
def Module.floatingPoint {κ : Type} : Module κ :=
  ⟨"floating_point",
    [.ofFloat "float" 1 id, .int, .ofFloat "sqrt" 4 Float.sqrt, .ofFloat "sin" 4 Float.sin,
      .ofFloat "cos" 4 Float.cos, .ofFloat "tan" 4 Float.tan, .ofFloat "floor" 1 Float.floor,
      .ofFloat "ceil" 1 Float.ceil, .ofFloat "round" 1 Float.round,
      .ofFloats "atan2" 4 Float.atan2, .ofFloats "pow" 4 Float.pow]⟩

end TickScript
