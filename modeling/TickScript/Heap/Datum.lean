import TickScript.Heap

/-!
# Data of the host

A host hands data to a program by building it in the program's heap: the parts first, in their order,
and then the whole.
-/

namespace TickScript

/-- Data that belongs to no heap. -/
inductive Datum where
  | null
  | int (n : Int64)
  | float (x : Float)
  | text (s : String)
  | tuple (items : List Datum)
  | object (members : List (String × Datum))
  | array (items : List Datum)
deriving Repr, Inhabited

mutual

/-- Builds data in a heap. -/
def Datum.build (h : Heap) : Datum → Value × Heap
  | .null => (.null, h)
  | .int n => (.int n, h)
  | .float x => (.float x, h)
  | .text s => h.text s
  | .tuple items =>
    let (vs, h) := buildAll h items
    h.tuple vs
  | .object members =>
    let (vs, h) := buildMembers h members
    h.object (members.map (·.1)) vs
  | .array items =>
    let (vs, h) := buildAll h items
    h.array vs

/-- Builds several data in their order. -/
def buildAll (h : Heap) : List Datum → List Value × Heap
  | [] => ([], h)
  | d :: ds =>
    let (v, h) := d.build h
    let (vs, h) := buildAll h ds
    (v :: vs, h)

/-- Builds the members of an object in their order. -/
def buildMembers (h : Heap) : List (String × Datum) → List Value × Heap
  | [] => ([], h)
  | (_, d) :: ds =>
    let (v, h) := d.build h
    let (vs, h) := buildMembers h ds
    (v :: vs, h)

end

end TickScript
