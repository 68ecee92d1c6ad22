import TickScript.Binary64

/-!
# Values

Values of a running program. Numbers are held by the value itself. Texts, tuples, objects and arrays
live in the heap and are counted there; the value holds the reference. Texts and tuples never change,
so the value also holds what they consist of, and comparing and measuring them needs no heap. Objects
and arrays change in place and are shared by everyone who holds the reference.

A text that stands in the program itself is in no heap and costs nothing.
-/

namespace TickScript

/-- The number of a cell of a heap. -/
abbrev Ref := Nat

/-- Values. `flat` is a tuple's count of its values that are no tuples, through all nesting. -/
inductive Value where
  | null
  | int (n : Int64)
  | float (x : Float)
  | text (cell : Option Ref) (s : String)
  | tuple (cell : Ref) (flat : Nat) (items : List Value)
  | object (cell : Ref)
  | array (cell : Ref)
deriving Repr, Inhabited

namespace Value

/-- The heap cell that a value refers to. -/
def cell? : Value → Option Ref
  | null | int _ | float _ => none
  | text cell _ => cell
  | tuple cell _ _ | object cell | array cell => some cell

/-- The name of a value's type. -/
def typeName : Value → String
  | null => "null"
  | int _ => "int"
  | float _ => "float"
  | text _ _ => "string"
  | tuple _ _ _ => "tuple"
  | object _ => "object"
  | array _ => "array"

/-- Whether a condition holds: null, zero and what is no number do not. -/
def isTruthy : Value → Bool
  | null => false
  | int n => n != 0
  | float x => x != 0.0 && ! x.isNaN
  | _ => true

/-- A condition as a value. -/
def ofBool (b : Bool) : Value := int (if b then 1 else 0)

/-- How many values a value adds to the flat size of a tuple. -/
def flatSize : Value → Nat
  | tuple _ flat _ => flat
  | _ => 1

/-- The flat size of a tuple of the given values. It is counted in a word of eight bytes, and begins
again from zero when the word is full. -/
def flatTotal : List Value → Nat
  | [] => 0
  | v :: vs => (v.flatSize + flatTotal vs) % UInt64.size

/-- The text of a value that is one. -/
def text? : Value → Option String
  | text _ s => some s
  | _ => none

mutual

/-- Equality of the language: of one type, texts and tuples by content, objects and arrays by
identity. -/
def equal : Value → Value → Bool
  | null, null => true
  | int a, int b => a == b
  | float a, float b => a == b
  | text _ a, text _ b => a == b
  | tuple _ _ a, tuple _ _ b => equalItems a b
  | object a, object b => a == b
  | array a, array b => a == b
  | _, _ => false

/-- Equality of the items of two tuples. -/
def equalItems : List Value → List Value → Bool
  | [], [] => true
  | a :: as, b :: bs => equal a b && equalItems as bs
  | _, _ => false

end

end Value

end TickScript
