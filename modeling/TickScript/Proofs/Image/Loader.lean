import TickScript.Image.Decode
import TickScript.Proofs.Routine

/-!
# Loading with a position

The same loading as a routine: a loader stands at an offset of the bytes, and nothing says that what it
reads uses any up. An alignment may bring it past the end, where no word is. The number that some loadings
take is how many calls may be inside each other.

A loader remembers every body that it has begun (`Loader.bodies`), so that what holds of these held
whenever instructions were about to be read. Functions are not remembered like that: behind their count
comes an alignment, and there may be fewer bytes behind it than functions to come.
-/

namespace TickScript.Image

open Bytes (Reader)

/-- The offset at which a loader stands, be it past the end of the bytes or not, and the bodies that it has
begun, the last first: how many instructions each should have, and how many bytes were left for them. -/
structure Loader where
  pos : Nat
  bodies : List (Nat × Nat)
deriving Repr, DecidableEq

/-- A loading with a position. -/
abbrev Loading (α : Type) := Routine Loader Damage α

namespace Loader

/-- The loader in front of all bytes. -/
def start : Loader := ⟨0, []⟩

/-- Skips to a multiple of an alignment. -/
def align (alignment : Nat) : Loading Unit :=
  modify fun l => { l with pos := l.pos + Bytes.padding alignment l.pos }

variable (bytes : List UInt8)

/-- The number of bytes left. -/
def left (l : Loader) : Nat := bytes.length - l.pos

/-- Reads a word at the next multiple of its size. -/
def word (width : Nat) : Loading Nat := do
  align width
  let pos := (← get).pos
  if pos + width ≤ bytes.length then
    modify fun l => { l with pos := pos + width }
    return Bytes.number ((bytes.drop pos).take width)
  else throw (.cutOff pos)

/-- Reads a word of four bytes. -/
def uint32 : Loading UInt32 := return UInt32.ofNat (← word bytes 4)

/-- Reads how many items follow, which may not be more than bytes are left. -/
def count : Loading Nat := do
  let offset := (← get).pos
  let n ← word bytes 4
  if (← get).left bytes < n then throw (.cutOff offset) else return n

/-- Begins a body of `n` instructions. -/
def begin (n : Nat) : Loading Unit :=
  modify fun l => { l with bodies := (n, l.left bytes) :: l.bodies }

mutual

/-- Reads an instruction. -/
def instruction : Nat → Loading Op
  | 0 => Routine.cutShort
  | n + 1 => do
    let offset := (← get).pos
    let code := UInt8.ofNat (← word bytes 1)
    match Opcode.plain? code, Opcode.worded? code with
    | some instr, _ => return instr
    | none, some make => return make (← uint32 bytes)
    | none, none =>
      if code = 0x11 then return .pushInt (← word bytes 8).toUInt64.toInt64
      else if code = 0x12 then return .pushFloat (← word bytes 8).toUInt64
      else if code = 0x40 then
        let yes ← body n
        let no ← body n
        return .branch yes no
      else if code = 0x41 then return .loop (← body n)
      else if code = 0x42 then return .tick (← body n)
      else throw (.unknownOpcode code offset)

/-- Reads a body: how many instructions it has, and the instructions. -/
def body : Nat → Loading (List Op)
  | 0 => Routine.cutShort
  | n + 1 => do
    let length ← count bytes
    begin bytes length
    (List.range length).mapM fun _ => instruction n

end

/-- Reads a table: how many entries it has, and the entries, each of which is told its number. -/
def table {α : Type} (entry : Nat → Loading α) : Loading (List α) := do
  (List.range (← count bytes)).mapM entry

/-- Reads the text with the number `id`. -/
def text (id : Nat) : Loading String := do
  let units ← table bytes fun _ => return UInt16.ofNat (← word bytes 2)
  match Text.ofUnits? units with
  | none => throw (.invalidText (UInt32.ofNat id))
  | some s => return s

/-- Reads what the program knows of a function of its host. -/
def signature : Loading (Signature UInt32) := do
  let name ← uint32 bytes
  let arity ← uint32 bytes
  let cost ← uint32 bytes
  return { name, arity, cost }

/-- Reads a function of the program. -/
def function (n : Nat) : Loading (Function UInt32 UInt32) := do
  let name ← uint32 bytes
  let arity ← uint32 bytes
  let line ← uint32 bytes
  let file ← uint32 bytes
  let instrs ← body bytes n
  return { name, arity, line, file, body := instrs }

/-- Reads the mark and the version. -/
def header : Loading Unit := do
  if (← uint32 bytes) ≠ magic then throw .notAnImage
  let n ← word bytes 2
  if UInt16.ofNat n ≠ version then throw (.unsupportedVersion (UInt16.ofNat n))

/-- Reads a whole image, behind which no byte may be left. -/
def image (n : Nat) : Loading Image := do
  header bytes
  let texts ← table bytes (text bytes)
  let shapes ← table bytes fun _ => table bytes fun _ => uint32 bytes
  let builtins ← table bytes fun _ => signature bytes
  let globals ← table bytes fun _ => uint32 bytes
  let length ← count bytes
  align 8
  let functions ← (List.range length).mapM fun _ => function bytes n
  let main ← body bytes n
  let left := (← get).left bytes
  if left > 0 then throw (.trailing left)
  return ⟨texts, shapes, { builtins, globals, functions, body := main }⟩

end Loader

end TickScript.Image
