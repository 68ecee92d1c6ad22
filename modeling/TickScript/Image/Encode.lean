import TickScript.Image.Opcode
import TickScript.Bytes.Writer
import TickScript.Text.Utf16

/-!
# Storing images

A stored image begins with its mark and its version. Then come the tables, each as a count and its
entries: texts, shapes, builtins, globals and functions. The last is the body of the program. All
words are little-endian and aligned to their size. The code, which is the functions and the body, is
written apart and appended at a multiple of eight.
-/

namespace TickScript.Image

open Bytes (Writer)

/-- The mark that a stored image begins with. -/
def magic : UInt32 := 0x4E544742

/-- The version of the format. -/
def version : UInt16 := 1

mutual

/-- Writes an instruction: its opcode and what follows it. -/
def writeInstr (w : Writer) : Op → Writer
  | .line n => (w.uint8 0x00).uint32 n
  | .file s => (w.uint8 0x01).uint32 s
  | .discard => w.uint8 0x02
  | .pushNull => w.uint8 0x10
  | .pushInt n => (w.uint8 0x11).int64 n
  | .pushFloat bits => (w.uint8 0x12).float64 bits
  | .pushText s => (w.uint8 0x13).uint32 s
  | .makeTuple n => (w.uint8 0x14).uint32 n
  | .makeObject shape => (w.uint8 0x15).uint32 shape
  | .makeArray n => (w.uint8 0x16).uint32 n
  | .tupleMember i => (w.uint8 0x17).uint32 i
  | .objectMember s => (w.uint8 0x18).uint32 s
  | .element => w.uint8 0x19
  | .loadGlobal slot => (w.uint8 0x1A).uint32 slot
  | .loadLocal slot => (w.uint8 0x1B).uint32 slot
  | .unary op => w.uint8 op.opcode
  | .binary op => w.uint8 op.opcode
  | .storeGlobal slot => (w.uint8 0x30).uint32 slot
  | .pushLocal => w.uint8 0x31
  | .storeLocal slot => (w.uint8 0x32).uint32 slot
  | .storeMember s => (w.uint8 0x33).uint32 s
  | .storeElement => w.uint8 0x34
  | .branch yes no =>
    let w₁ := writeInstrs ((w.uint8 0x40).count yes.length) yes
    writeInstrs (w₁.count no.length) no
  | .loop body => writeInstrs ((w.uint8 0x41).count body.length) body
  | .tick body => writeInstrs ((w.uint8 0x42).count body.length) body
  | .continueLoop => w.uint8 0x43
  | .breakLoop => w.uint8 0x44
  | .call id => (w.uint8 0x45).uint32 id
  | .callBuiltin id => (w.uint8 0x46).uint32 id
  | .giveBack => w.uint8 0x47

/-- Writes instructions one after the other. -/
def writeInstrs (w : Writer) : List Op → Writer
  | [] => w
  | i :: is => writeInstrs (writeInstr w i) is

end

/-- Writes a body: how many instructions it has, and the instructions. -/
def writeBody (w : Writer) (body : List Op) : Writer :=
  writeInstrs (w.count body.length) body

/-- Writes how many entries a table has, and the entries. -/
def writeTable {α : Type} (entry : Writer → α → Writer) (w : Writer) (table : List α) : Writer :=
  table.foldl entry (w.count table.length)

/-- Writes a text by its units. -/
def writeText (w : Writer) (s : String) : Writer := writeTable Writer.uint16 w (Text.toUnits s)

/-- Writes what the program knows of a function of its host. -/
def writeSignature (w : Writer) (b : Signature UInt32) : Writer :=
  ((w.uint32 b.name).uint32 b.arity).uint32 b.cost

/-- Writes a function of the program. -/
def writeFunction (w : Writer) (f : Function UInt32 UInt32) : Writer :=
  writeBody ((((w.uint32 f.name).uint32 f.arity).uint32 f.line).uint32 f.file) f.body

/-- Writes the code of a program: its functions and its body. -/
def writeCode (w : Writer) (p : Program UInt32 UInt32) : Writer :=
  writeBody (p.functions.foldl writeFunction w) p.body

/-- The stored image. -/
def encode (image : Image) : List UInt8 :=
  let w := (Writer.empty.uint32 magic).uint16 version
  let w := writeTable writeText w image.texts
  let w := writeTable (writeTable Writer.uint32) w image.shapes
  let w := writeTable writeSignature w image.program.builtins
  let w := writeTable Writer.uint32 w image.program.globals
  let w := w.count image.program.functions.length
  (w.append (writeCode Writer.empty image.program)).toList

end TickScript.Image
