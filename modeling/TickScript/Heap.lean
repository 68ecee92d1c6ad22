import TickScript.Value

/-!
# The heap

Compound values live in cells. A cell counts the references to it, from stacks, variables, pending
arguments and other cells; when the last one goes the cell goes too, and so do the references that it
held. Cells that refer to each other in a circle keep each other, and are never given back.

Each cell is charged to the heap from when it is made until it goes. An array is charged for the
items it has room for: it is made without spare room, grows by doubling when an item is pushed onto a
full array, and never shrinks.
-/

namespace TickScript

/-- The size of a value in bytes. -/
def valueSize : Nat := 16

/-- What a cell holds. -/
inductive Body where
  | text (s : String)
  | tuple (items : List Value)
  | object (names : List String) (values : List Value)
  | array (capacity : Nat) (items : List Value)
deriving Repr

namespace Body

/-- The values that a cell holds. -/
def held : Body → List Value
  | text _ => []
  | tuple items => items
  | object _ values => values
  | array _ items => items

/-- The bytes that a cell is charged for. -/
def charge : Body → Nat
  | text s => 32 + s.utf8ByteSize
  | tuple items => 40 + valueSize * items.length
  | object _ values => 64 + valueSize * values.length
  | array capacity _ => 48 + valueSize * capacity

end Body

/-- A cell and the number of references to it. -/
structure Cell where
  ref : Ref
  count : Nat
  body : Body
deriving Repr

/-- The live cells, the latest first, the number of the next cell, and the bytes charged. -/
structure Heap where
  cells : List Cell
  next : Ref
  used : Nat
deriving Repr

namespace Heap

/-- The heap without cells. -/
def empty : Heap := ⟨[], 0, 0⟩

/-- The cell with a number. -/
def cell? (h : Heap) (r : Ref) : Option Cell := h.cells.find? fun c => c.ref == r

/-- What the cell with a number holds. -/
def body? (h : Heap) (r : Ref) : Option Body := (h.cell? r).map (·.body)

/-- Makes a cell with one reference. -/
def alloc (h : Heap) (b : Body) : Ref × Heap :=
  (h.next, ⟨⟨h.next, 1, b⟩ :: h.cells, h.next + 1, h.used + b.charge⟩)

/-- Changes the cell with a number. -/
def modify (h : Heap) (r : Ref) (f : Cell → Cell) : Heap :=
  { h with cells := h.cells.map fun c => if c.ref == r then f c else c }

/-- Counts one more reference to a cell. -/
def retainCell (h : Heap) (r : Ref) : Heap := h.modify r fun c => { c with count := c.count + 1 }

/-- Counts one more reference for a copy of a value. -/
def retain (h : Heap) (v : Value) : Heap :=
  match v.cell? with
  | some r => h.retainCell r
  | none => h

/-- Counts one more reference for a copy of each value. -/
def retainAll (h : Heap) (vs : List Value) : Heap := vs.foldl retain h

/-- Takes a cell out of the heap and its charge off. -/
def free (h : Heap) (c : Cell) : Heap :=
  { h with cells := h.cells.filter (fun d => d.ref != c.ref), used := h.used - c.body.charge }

/-- A heap without one of its cells is smaller, so that releasing comes to an end. -/
theorem length_free_lt {h : Heap} {r : Ref} {c : Cell} (hc : h.cell? r = some c) :
    (h.free c).cells.length < h.cells.length := by
  have hm : c ∈ h.cells := List.mem_of_find?_eq_some hc
  refine List.length_filter_lt_length_iff_exists.2 ⟨c, hm, ?_⟩
  simp

/-- Changing a cell leaves the number of cells as it is. -/
@[simp] theorem length_modify (h : Heap) (r : Ref) (f : Cell → Cell) :
    (h.modify r f).cells.length = h.cells.length := by
  simp [modify]

set_option linter.unusedVariables false in
/-- Gives back one reference for each value. A cell that loses its last reference goes, and gives
back the references it held. -/
def release (h : Heap) (vs : List Value) : Heap :=
  match vs with
  | [] => h
  | v :: vs =>
    match v.cell? with
    | none => release h vs
    | some r =>
      match hc : h.cell? r with
      | none => release h vs
      | some c =>
        if c.count ≤ 1 then release (h.free c) (c.body.held ++ vs)
        else release (h.modify r fun c => { c with count := c.count - 1 }) vs
termination_by (h.cells.length, vs.length)
decreasing_by
  · exact Prod.Lex.right _ (by simp)
  · exact Prod.Lex.right _ (by simp)
  · exact Prod.Lex.left _ _ (length_free_lt hc)
  · rw [length_modify]
    exact Prod.Lex.right _ (by simp)

/-! ## Making values -/

/-- A text of its own. -/
def text (h : Heap) (s : String) : Value × Heap :=
  let (r, h) := h.alloc (.text s)
  (.text (some r) s, h)

/-- A tuple, which takes over the references to its items. -/
def tuple (h : Heap) (items : List Value) : Value × Heap :=
  let (r, h) := h.alloc (.tuple items)
  (.tuple r (Value.flatTotal items) items, h)

/-- An object, which takes over the references to its values. -/
def object (h : Heap) (names : List String) (values : List Value) : Value × Heap :=
  let (r, h) := h.alloc (.object names values)
  (.object r, h)

/-- An array without spare room, which takes over the references to its items. -/
def array (h : Heap) (items : List Value) : Value × Heap :=
  let (r, h) := h.alloc (.array items.length items)
  (.array r, h)

/-! ## Objects and arrays -/

/-- The names and values of an object's members. -/
def members (h : Heap) (r : Ref) : List (String × Value) :=
  match h.body? r with
  | some (.object names values) => names.zip values
  | _ => []

/-- The items of an array. -/
def items (h : Heap) (r : Ref) : List Value :=
  match h.body? r with
  | some (.array _ items) => items
  | _ => []

/-- The place of an object's first member with a name. -/
def memberIndex? (h : Heap) (r : Ref) (name : String) : Option Nat :=
  match h.body? r with
  | some (.object names _) => names.findIdx? (· == name)
  | _ => none

/-- The value of an object's first member with a name. -/
def member? (h : Heap) (r : Ref) (name : String) : Option Value :=
  ((h.members r).find? fun m => m.1 == name).map (·.2)

/-- Puts another body into a cell, and charges for the difference. -/
def setBody (h : Heap) (r : Ref) (b : Body) : Heap :=
  match h.body? r with
  | some old =>
    { h.modify r fun c => { c with body := b } with used := h.used + b.charge - old.charge }
  | none => h

/-- Replaces the value of an object's first member with a name; `none` if there is no such member.
The object takes over the reference to the value and gives back the one it held. -/
def setMember? (h : Heap) (r : Ref) (name : String) (v : Value) : Option Heap :=
  match h.body? r with
  | some (.object names values) =>
    match names.findIdx? (· == name) with
    | some i =>
      match values[i]? with
      | some old => some ((h.setBody r (.object names (values.set i v))).release [old])
      | none => none
    | none => none
  | _ => none

/-- Replaces an item of an array; `none` if the array is not that long. The array takes over the
reference to the value and gives back the one it held. -/
def setItem? (h : Heap) (r : Ref) (i : Nat) (v : Value) : Option Heap :=
  match h.body? r with
  | some (.array capacity items) =>
    match items[i]? with
    | some old => some ((h.setBody r (.array capacity (items.set i v))).release [old])
    | none => none
  | _ => none

/-- The room of an array after it had to grow. -/
def grownCapacity (capacity : Nat) : Nat := max (2 * capacity) (max (capacity + 1) 4)

/-- Appends an item to an array, which takes over the reference to it. -/
def pushItem (h : Heap) (r : Ref) (v : Value) : Heap :=
  match h.body? r with
  | some (.array capacity items) =>
    let capacity' := if items.length < capacity then capacity else grownCapacity capacity
    h.setBody r (.array capacity' (items ++ [v]))
  | _ => h

/-- Takes the last item off an array, together with the reference to it. -/
def popItem (h : Heap) (r : Ref) : Option Value × Heap :=
  match h.body? r with
  | some (.array capacity items) =>
    match items.getLast? with
    | some v => (some v, h.setBody r (.array capacity items.dropLast))
    | none => (none, h)
  | _ => (none, h)

end Heap

end TickScript
