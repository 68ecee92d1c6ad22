import TickScript.Program

/-!
# Images

An image is a program that can be stored: texts stand in one table and object shapes in another, and
instructions mention them by number. A text or a shape is entered when it is first mentioned, so no
table has an entry twice, and the names of builtins, globals and functions come before what only the
instructions mention.
-/

namespace TickScript

section Mapping

variable {m : Type → Type} [Monad m] {ν ν' σ σ' : Type}

mutual

/-- The instruction with every mentioned text and shape replaced, in the order they are mentioned. -/
def Instr.mapM (f : ν → m ν') (g : σ → m σ') : Instr ν σ → m (Instr ν' σ')
  | .line n => pure (.line n)
  | .file s => .file <$> f s
  | .discard => pure .discard
  | .pushNull => pure .pushNull
  | .pushInt n => pure (.pushInt n)
  | .pushFloat bits => pure (.pushFloat bits)
  | .pushText s => .pushText <$> f s
  | .makeTuple n => pure (.makeTuple n)
  | .makeObject shape => .makeObject <$> g shape
  | .makeArray n => pure (.makeArray n)
  | .tupleMember i => pure (.tupleMember i)
  | .objectMember s => .objectMember <$> f s
  | .element => pure .element
  | .loadGlobal slot => pure (.loadGlobal slot)
  | .loadLocal slot => pure (.loadLocal slot)
  | .unary op => pure (.unary op)
  | .binary op => pure (.binary op)
  | .storeGlobal slot => pure (.storeGlobal slot)
  | .pushLocal => pure .pushLocal
  | .storeLocal slot => pure (.storeLocal slot)
  | .storeMember s => .storeMember <$> f s
  | .storeElement => pure .storeElement
  | .branch yes no => do
    let yes' ← mapInstrsM f g yes
    let no' ← mapInstrsM f g no
    return .branch yes' no'
  | .loop body => .loop <$> mapInstrsM f g body
  | .tick body => .tick <$> mapInstrsM f g body
  | .continueLoop => pure .continueLoop
  | .breakLoop => pure .breakLoop
  | .call id => pure (.call id)
  | .callBuiltin id => pure (.callBuiltin id)
  | .giveBack => pure .giveBack

/-- The instructions with every mentioned text and shape replaced. -/
def mapInstrsM (f : ν → m ν') (g : σ → m σ') : List (Instr ν σ) → m (List (Instr ν' σ'))
  | [] => pure []
  | i :: is => do
    let first ← i.mapM f g
    let others ← mapInstrsM f g is
    return first :: others

end

/-- The program with every mentioned text and shape replaced: first the names, then the bodies. -/
def Program.mapM (f : ν → m ν') (g : σ → m σ') (p : Program ν σ) : m (Program ν' σ') := do
  let builtins ← p.builtins.mapM fun b => do
    let name ← f b.name
    return { name, arity := b.arity, cost := b.cost }
  let globals ← p.globals.mapM f
  let heads ← p.functions.mapM fun fn => do
    let name ← f fn.name
    let file ← f fn.file
    return (name, file)
  let functions ← (p.functions.zip heads).mapM fun (fn, name, file) => do
    let body ← mapInstrsM f g fn.body
    return { name, arity := fn.arity, line := fn.line, file, body }
  let body ← mapInstrsM f g p.body
  return { builtins, globals, functions, body }

end Mapping

/-- An instruction that mentions texts and shapes by number. -/
abbrev Op := Instr UInt32 UInt32

/-- A program whose texts and object shapes stand in tables. A shape lists the numbers of its member
names. -/
structure Image where
  texts : List String
  shapes : List (List UInt32)
  program : Program UInt32 UInt32
deriving Repr

/-- The tables of an image that is being made. -/
structure Tables where
  texts : List String
  shapes : List (List UInt32)
deriving Repr, DecidableEq

/-- The number of an item in a table, which it joins if it is new. -/
def enter {α : Type} [BEq α] (table : List α) (a : α) : UInt32 × List α :=
  match table.findIdx? (· == a) with
  | some i => (UInt32.ofNat i, table)
  | none => (UInt32.ofNat table.length, table ++ [a])

namespace Tables

/-- The number of a text. -/
def text (s : String) : StateM Tables UInt32 := fun t =>
  let (id, texts) := enter t.texts s
  (id, { t with texts })

/-- The number of a shape, after the numbers of its names. -/
def shape (names : List String) : StateM Tables UInt32 := do
  let ids ← names.mapM text
  modifyGet fun t =>
    let (id, shapes) := enter t.shapes ids
    (id, { t with shapes })

end Tables

namespace Image

/-- The image of a program. -/
def link (p : Program String (List String)) : Image :=
  let (program, tables) := (p.mapM Tables.text Tables.shape).run ⟨[], []⟩
  ⟨tables.texts, tables.shapes, program⟩

/-- The text with a number. -/
def text? (image : Image) (id : UInt32) : Option String := image.texts[id.toNat]?

/-- The member names of the shape with a number. -/
def shape? (image : Image) (id : UInt32) : Option (List String) := do
  let names ← image.shapes[id.toNat]?
  names.mapM image.text?

/-- The name of a function of the host. -/
def builtinName? (image : Image) (id : UInt32) : Option String := do
  let b ← image.program.builtins[id.toNat]?
  image.text? b.name

/-- The program of an image, if every number it mentions is in a table. -/
def unlink? (image : Image) : Option (Program String (List String)) :=
  image.program.mapM image.text? image.shape?

end Image

end TickScript
