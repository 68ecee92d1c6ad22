import TickScript.Syntax

/-!
# Programs

A program is what a script becomes: structured instructions for a stack machine. Control flow nests
whole instruction lists, so there are no jumps and no offsets. The same instructions occur twice in
the life of a program, and differ only in how they mention text: a freshly lowered program holds the
texts themselves and the member names of its objects, a linked program holds their numbers in the
tables of its image. Hence the two parameters, `ν` for a mentioned text and `σ` for a mentioned
object shape.

An operand is the top of the operand stack; an instruction that names several takes the last from the
top.
-/

namespace TickScript

/-- Instructions. -/
inductive Instr (ν σ : Type) where
  /-- What follows stands on this line. -/
  | line (n : UInt32)
  /-- What follows stands in this file. -/
  | file (s : ν)
  /-- Drops an operand. -/
  | discard
  | pushNull
  | pushInt (n : Int64)
  /-- Pushes the float with these 64 bits. Every NaN has bits of its own. -/
  | pushFloat (bits : UInt64)
  | pushText (s : ν)
  /-- Makes a tuple of that many operands. -/
  | makeTuple (size : UInt32)
  /-- Makes an object of one operand for each member of its shape. -/
  | makeObject (shape : σ)
  /-- Makes an array of that many operands. -/
  | makeArray (size : UInt32)
  /-- Replaces a tuple by one of its items. -/
  | tupleMember (index : UInt32)
  /-- Replaces an object by one of its members. -/
  | objectMember (member : ν)
  /-- Replaces an array and an index by the element there. -/
  | element
  | loadGlobal (slot : UInt32)
  /-- Loads a local; slots count from the top of the locals. -/
  | loadLocal (slot : UInt32)
  | unary (op : UnaryOp)
  | binary (op : BinaryOp)
  | storeGlobal (slot : UInt32)
  /-- Makes an operand a new local on top of the others. -/
  | pushLocal
  | storeLocal (slot : UInt32)
  /-- Takes an object and the new value of its member. -/
  | storeMember (member : ν)
  /-- Takes an array, an index and the new value of the element there. -/
  | storeElement
  /-- Takes a condition and runs one of two bodies. -/
  | branch (yes no : List (Instr ν σ))
  | loop (body : List (Instr ν σ))
  /-- A loop that waits for the next tick after every round. -/
  | tick (body : List (Instr ν σ))
  | continueLoop
  | breakLoop
  /-- Calls a function of the program. -/
  | call (function : UInt32)
  /-- Calls a function of the host. -/
  | callBuiltin (builtin : UInt32)
  /-- Ends the running function with an operand as its result. -/
  | giveBack
deriving Repr

/-- What a program knows of a function of its host. The cost is charged against the instructions of
the tick, once for every call. -/
structure Signature (ν : Type) where
  name : ν
  arity : UInt32
  cost : UInt32
deriving Repr, DecidableEq

/-- A function of a program. -/
structure Function (ν σ : Type) where
  name : ν
  arity : UInt32
  line : UInt32
  file : ν
  body : List (Instr ν σ)
deriving Repr

/-- A program. Functions, builtins and globals are numbered by their place in their list. -/
structure Program (ν σ : Type) where
  builtins : List (Signature ν)
  globals : List ν
  functions : List (Function ν σ)
  body : List (Instr ν σ)
deriving Repr

end TickScript
