import TickScript.Builtin
import TickScript.Heap.Display

/-!
# Functions that every processor has

Printing, texts, lengths and the order of numbers.
-/

namespace TickScript

namespace Builtin

variable {κ : Type}

/-- The levels of nesting that printing shows. -/
def displayDepth : Nat := 3

/-- The fault of a call with a wrong number of arguments. -/
def wrongCount (m : Machine) : Fault := m.faultOf .missingOperand none

/-- The fault of a value that is no number. -/
def notNumber (m : Machine) (v : Value) : Fault := m.faultOf .notNumbers (some s!"got {v.typeName}")

/-- Adds a value in words to the log. -/
def print : Builtin κ where
  name := "print"
  arity := 1
  cost := 10
  run
    | [v], m, context =>
      { m.reply (.ok .null) context with log := m.log ++ [m.heap.shown displayDepth v] }
    | _, m, context => m.reply (.error (wrongCount m)) context

/-- Ends the program with a value in words. -/
def error : Builtin κ :=
  ofResult "error" 1 1 fun m args =>
    match args with
    | [v] => .error (m.faultOf .raisedByProgram (some (m.heap.shown displayDepth v)))
    | _ => .error (wrongCount m)

/-- A value in words, as a text. -/
def string : Builtin κ where
  name := "string"
  arity := 1
  cost := 5
  run
    | [.text cell s], m, context =>
      { m.reply (.ok (.text cell s)) context with heap := m.heap.retain (.text cell s) }
    | [v], m, context =>
      let (text, heap) := m.heap.text (m.heap.shown displayDepth v)
      { m.reply (.ok text) context with heap }
    | _, m, context => m.reply (.error (wrongCount m)) context

/-- Two texts one after the other. -/
def concat : Builtin κ where
  name := "concat"
  arity := 2
  cost := 5
  run
    | [a, b], m, context =>
      match a.text?, b.text? with
      | some s, some t =>
        let (text, heap) := m.heap.text (s ++ t)
        { m.reply (.ok text) context with heap }
      | _, _ => m.reply (.error (m.faultOf .notText none)) context
    | _, m, context => m.reply (.error (wrongCount m)) context

/-- How many characters, items or elements there are. -/
def length : Builtin κ :=
  ofResult "length" 1 1 fun m args =>
    match args with
    | [.text _ s] => .ok (.int (Int64.ofNat s.length))
    | [.tuple _ _ items] => .ok (.int (Int64.ofNat items.length))
    | [.array r] => .ok (.int (Int64.ofNat (m.heap.items r).length))
    | [v] => .error (m.faultOf .notArray (some s!"cannot take the length of {v.typeName}"))
    | _ => .error (wrongCount m)

/-- The size of a number without its sign. The least integer has none and stays as it is. -/
def abs : Builtin κ :=
  ofResult "abs" 1 1 fun m args =>
    match args with
    | [.int n] => .ok (.int (if n < 0 then -n else n))
    | [.float x] => .ok (.float x.abs)
    | [v] => .error (notNumber m v)
    | _ => .error (wrongCount m)

/-- One of two numbers of the same kind. Integers are compared as the floats nearest to them. -/
def pick (first : Float → Float → Bool) (m : Machine) : List Value → Except Fault Value
  | [.int a, .int b] =>
    .ok (.int (if first (Binary64.ofInt64 a) (Binary64.ofInt64 b) then a else b))
  | [.float a, .float b] => .ok (.float (if first a b then a else b))
  | [_, _] => .error (m.faultOf .notNumbers none)
  | _ => .error (wrongCount m)

/-- The lesser of two numbers. -/
def min : Builtin κ := ofResult "min" 2 1 (pick fun a b => a ≤ b)

/-- The greater of two numbers. -/
def max : Builtin κ := ofResult "max" 2 1 (pick fun a b => b ≤ a)

/-- A number held between two others; where they cross the lower one wins. -/
def clampInt (n low high : Int64) : Int64 :=
  let n := if high < n then high else n
  if n < low then low else n

/-- A number held between two others. -/
def clamp : Builtin κ :=
  ofResult "clamp" 3 2 fun m args =>
    match args with
    | [.int n, .int low, .int high] => .ok (.int (clampInt n low high))
    | [.float x, .float low, .float high] =>
      .ok (.float (Binary64.larger (Binary64.smaller x high) low))
    | [_, _, _] => .error (m.faultOf .notNumbers none)
    | _ => .error (wrongCount m)

end Builtin

/-- The functions that every processor has. -/
def Module.standard {κ : Type} : Module κ :=
  ⟨"standard", [.print, .error, .string, .concat, .length, .abs, .min, .max, .clamp]⟩

end TickScript
