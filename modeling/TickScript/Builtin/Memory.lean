import TickScript.Builtin.Standard

/-!
# Functions on arrays

No array may grow longer than the memory could hold.
-/

namespace TickScript

namespace Builtin

variable {κ : Type}

/-- The fault of a value that is no array. -/
def notArray (m : Machine) (v : Value) : Fault := m.faultOf .notArray (some s!"got {v.typeName}")

/-- Appends a value to an array. -/
def push : Builtin κ where
  name := "push"
  arity := 2
  cost := 2
  run
    | [.array r, v], m, context =>
      if m.limits.arraySize ≤ (m.heap.items r).length then
        m.reply (.error (m.faultOf .arrayTooBig none)) context
      else { m.reply (.ok .null) context with heap := (m.heap.retain v).pushItem r v }
    | [a, _], m, context => m.reply (.error (notArray m a)) context
    | _, m, context => m.reply (.error (wrongCount m)) context

/-- Takes the last element off an array; null if there is none. -/
def pop : Builtin κ where
  name := "pop"
  arity := 1
  cost := 1
  run
    | [.array r], m, context =>
      let (v, heap) := m.heap.popItem r
      { m.reply (.ok (v.getD .null)) context with heap }
    | [a], m, context => m.reply (.error (notArray m a)) context
    | _, m, context => m.reply (.error (wrongCount m)) context

/-- The length of an array. -/
def size : Builtin κ :=
  ofResult "size" 1 1 fun m args =>
    match args with
    | [.array r] => .ok (.int (Int64.ofNat (m.heap.items r).length))
    | [a] => .error (notArray m a)
    | _ => .error (wrongCount m)

/-- An array with a value a number of times. -/
def array : Builtin κ where
  name := "array"
  arity := 2
  cost := 5
  run
    | [.int n, v], m, context =>
      if n < 0 || m.limits.arraySize < n.toInt.toNat then
        m.reply (.error (m.faultOf .arrayTooBig none)) context
      else
        let items := List.replicate n.toInt.toNat v
        let (a, heap) := (m.heap.retainAll items).array items
        { m.reply (.ok a) context with heap }
    | [_, _], m, context => m.reply (.error (m.faultOf .notInteger none)) context
    | _, m, context => m.reply (.error (wrongCount m)) context

/-- The bytes of memory that a program may use. -/
def ramSize : Builtin κ :=
  ofResult "ram_size" 0 1 fun m _ => .ok (.int (Int64.ofNat m.limits.memory))

end Builtin

/-- The functions on arrays. -/
def Module.memory {κ : Type} : Module κ :=
  ⟨"memory", [.push, .pop, .size, .array, .ramSize]⟩

end TickScript
