import TickScript.Program

/-!
# Redundant places

Instructions that only say where the program stands cost a step each, so one that says nothing new is
dropped. What is known of the place is carried along the instructions in the order in which they are
written. Bodies do not run in that order, so the line is forgotten on both sides of a body; the file
is kept, because a body seldom leaves its file.
-/

namespace TickScript

/-- What is known of the place of the next instruction. -/
structure Marks where
  line : Option UInt32
  file : Option String
deriving Repr, DecidableEq

namespace Marks

/-- Nothing is known at the start of a function or of the script. -/
def none : Marks := ⟨.none, .none⟩

/-- What is known where bodies begin and end. -/
def forgetLine (m : Marks) : Marks := { m with line := .none }

end Marks

variable {σ : Type}

mutual

/-- The instruction without redundant places, and what is known after it. -/
def Instr.thin (m : Marks) : Instr String σ → List (Instr String σ) × Marks
  | .line n => if m.line = some n then ([], m) else ([.line n], { m with line := some n })
  | .file s => if m.file = some s then ([], m) else ([.file s], { m with file := some s })
  | .branch yes no =>
    let (yes', m₁) := thinAll m.forgetLine yes
    let (no', m₂) := thinAll m₁.forgetLine no
    ([.branch yes' no'], m₂.forgetLine)
  | .loop body =>
    let (body', m₁) := thinAll m.forgetLine body
    ([.loop body'], m₁.forgetLine)
  | .tick body =>
    let (body', m₁) := thinAll m.forgetLine body
    ([.tick body'], m₁.forgetLine)
  | .discard => ([.discard], m)
  | .pushNull => ([.pushNull], m)
  | .pushInt n => ([.pushInt n], m)
  | .pushFloat bits => ([.pushFloat bits], m)
  | .pushText s => ([.pushText s], m)
  | .makeTuple n => ([.makeTuple n], m)
  | .makeObject shape => ([.makeObject shape], m)
  | .makeArray n => ([.makeArray n], m)
  | .tupleMember i => ([.tupleMember i], m)
  | .objectMember s => ([.objectMember s], m)
  | .element => ([.element], m)
  | .loadGlobal slot => ([.loadGlobal slot], m)
  | .loadLocal slot => ([.loadLocal slot], m)
  | .unary op => ([.unary op], m)
  | .binary op => ([.binary op], m)
  | .storeGlobal slot => ([.storeGlobal slot], m)
  | .pushLocal => ([.pushLocal], m)
  | .storeLocal slot => ([.storeLocal slot], m)
  | .storeMember s => ([.storeMember s], m)
  | .storeElement => ([.storeElement], m)
  | .continueLoop => ([.continueLoop], m)
  | .breakLoop => ([.breakLoop], m)
  | .call id => ([.call id], m)
  | .callBuiltin id => ([.callBuiltin id], m)
  | .giveBack => ([.giveBack], m)

/-- The instructions without redundant places, and what is known after them. -/
def thinAll (m : Marks) : List (Instr String σ) → List (Instr String σ) × Marks
  | [] => ([], m)
  | i :: is =>
    let (first, m₁) := i.thin m
    let (others, m₂) := thinAll m₁ is
    (first ++ others, m₂)

end

/-- A whole body without redundant places. -/
def thinBody (body : List (Instr String σ)) : List (Instr String σ) := (thinAll .none body).1

end TickScript
