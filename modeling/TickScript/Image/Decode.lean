import TickScript.Image.Encode
import TickScript.Bytes.Reader
import TickScript.Text.Columns

/-!
# Loading images

Loading reads the bytes of a stored image from front to back. It accepts only images of the known
version that end where their last instruction ends, and refuses a count that is greater than the
number of bytes left, so no count makes it build more than the bytes can hold. Numbers of texts,
shapes and slots are not checked here.

**Progress.** Whatever is read comes with the proof that bytes were used up (`Piece`); bodies nest as
deep as the bytes allow, and the recursion ends because of it.
-/

namespace TickScript.Image

open Bytes (Reader)

/-- What is wrong with the bytes of a stored image. -/
inductive Damage where
  | cutOff (offset : Nat)
  | notAnImage
  | unsupportedVersion (n : UInt16)
  | unknownOpcode (code : UInt8) (offset : Nat)
  | invalidText (id : UInt32)
  | trailing (bytes : Nat)
deriving Repr, DecidableEq

/-- The damage in words. -/
def Damage.text : Damage → String
  | .cutOff offset => s!"unexpected end of program at offset {offset}"
  | .notAnImage => "not a program binary"
  | .unsupportedVersion n => s!"unsupported program version {n}"
  | .unknownOpcode code offset => s!"invalid opcode 0x{Text.hexByte code} at offset {offset}"
  | .invalidText id => s!"string {id} is not valid UTF-16"
  | .trailing bytes => s!"{bytes} trailing bytes after program"

/-- A value, and the reader after it with fewer than `bound` bytes left. -/
structure Piece (α : Type) (bound : Nat) where
  value : α
  reader : Reader
  fewer : reader.left < bound

/-- Reads a word. -/
def readWord (r : Reader) (width : Nat) (h : 0 < width) : Except Damage (Piece Nat r.left) :=
  match hw : r.word width with
  | .ok (n, r') => .ok ⟨n, r', by have := Reader.left_of_word hw; omega⟩
  | .error offset => .error (.cutOff offset)

/-- Reads a word of four bytes. -/
def readUInt32 (r : Reader) : Except Damage (Piece UInt32 r.left) := do
  let ⟨n, r', h⟩ ← readWord r 4 (by decide)
  return ⟨UInt32.ofNat n, r', h⟩

/-- Reads how many items follow. Every item takes a byte at least, so there cannot be more of them
than bytes are left. -/
def readCount (r : Reader) : Except Damage (Piece Nat r.left) := do
  let ⟨n, r', h⟩ ← readWord r 4 (by decide)
  if Bytes.isShorter r'.rest n then .error (.cutOff r.offset) else return ⟨n, r', h⟩

/-- Reads a number of items one after the other. -/
def readMany {α : Type} (item : (r : Reader) → Except Damage (Piece α r.left)) :
    Nat → (r : Reader) → Except Damage (Piece (List α) (r.left + 1))
  | 0, r => return ⟨[], r, Nat.lt_succ_self _⟩
  | n + 1, r => do
    let ⟨a, r₁, h₁⟩ ← item r
    let ⟨as, r₂, h₂⟩ ← readMany item n r₁
    return ⟨a :: as, r₂, by omega⟩

/-- Reads a table: how many entries it has, and the entries. -/
def readTable {α : Type} (entry : (r : Reader) → Except Damage (Piece α r.left)) (r : Reader) :
    Except Damage (Piece (List α) r.left) := do
  let ⟨n, r₁, h₁⟩ ← readCount r
  let ⟨as, r₂, h₂⟩ ← readMany entry n r₁
  return ⟨as, r₂, by omega⟩

/-- Reads a unit of a text. -/
def readUnit (r : Reader) : Except Damage (Piece UInt16 r.left) := do
  let ⟨n, r', h⟩ ← readWord r 2 (by decide)
  return ⟨UInt16.ofNat n, r', h⟩

/-- Reads texts, the first of which has the number `id`. -/
def readTexts : Nat → UInt32 → (r : Reader) → Except Damage (Piece (List String) (r.left + 1))
  | 0, _, r => return ⟨[], r, Nat.lt_succ_self _⟩
  | n + 1, id, r => do
    let ⟨units, r₁, h₁⟩ ← readTable readUnit r
    match Text.ofUnits? units with
    | none => .error (.invalidText id)
    | some s =>
      let ⟨ss, r₂, h₂⟩ ← readTexts n (id + 1) r₁
      return ⟨s :: ss, r₂, by omega⟩

mutual

/-- Reads an instruction. -/
def readInstr (r : Reader) : Except Damage (Piece Op r.left) := do
  let ⟨n, r₁, h₁⟩ ← readWord r 1 (by decide)
  let code := UInt8.ofNat n
  match Opcode.plain? code, Opcode.worded? code with
  | some instr, _ => return ⟨instr, r₁, h₁⟩
  | none, some make =>
    let ⟨m, r₂, h₂⟩ ← readUInt32 r₁
    return ⟨make m, r₂, by omega⟩
  | none, none =>
    match code with
    | 0x11 =>
      let ⟨m, r₂, h₂⟩ ← readWord r₁ 8 (by decide)
      return ⟨.pushInt m.toUInt64.toInt64, r₂, by omega⟩
    | 0x12 =>
      let ⟨m, r₂, h₂⟩ ← readWord r₁ 8 (by decide)
      return ⟨.pushFloat m.toUInt64, r₂, by omega⟩
    | 0x40 =>
      let ⟨yes, r₂, h₂⟩ ← readBody r₁
      let ⟨no, r₃, h₃⟩ ← readBody r₂
      return ⟨.branch yes no, r₃, by omega⟩
    | 0x41 =>
      let ⟨body, r₂, h₂⟩ ← readBody r₁
      return ⟨.loop body, r₂, by omega⟩
    | 0x42 =>
      let ⟨body, r₂, h₂⟩ ← readBody r₁
      return ⟨.tick body, r₂, by omega⟩
    | _ => .error (.unknownOpcode code r.offset)
termination_by (r.left, 0)

/-- Reads a number of instructions one after the other. -/
def readInstrs (n : Nat) (r : Reader) : Except Damage (Piece (List Op) (r.left + 1)) :=
  match n with
  | 0 => return ⟨[], r, Nat.lt_succ_self _⟩
  | n + 1 => do
    let ⟨i, r₁, h₁⟩ ← readInstr r
    let ⟨is, r₂, h₂⟩ ← readInstrs n r₁
    return ⟨i :: is, r₂, by omega⟩
termination_by (r.left, 1)

/-- Reads a body: how many instructions it has, and the instructions. -/
def readBody (r : Reader) : Except Damage (Piece (List Op) r.left) := do
  let ⟨n, r₁, h₁⟩ ← readCount r
  let ⟨is, r₂, h₂⟩ ← readInstrs n r₁
  return ⟨is, r₂, by omega⟩
termination_by (r.left, 0)

end

/-- Reads what the program knows of a function of its host. -/
def readSignature (r : Reader) : Except Damage (Piece (Signature UInt32) r.left) := do
  let ⟨name, r₁, h₁⟩ ← readUInt32 r
  let ⟨arity, r₂, h₂⟩ ← readUInt32 r₁
  let ⟨cost, r₃, h₃⟩ ← readUInt32 r₂
  return ⟨{ name, arity, cost }, r₃, by omega⟩

/-- Reads a function of the program. -/
def readFunction (r : Reader) : Except Damage (Piece (Function UInt32 UInt32) r.left) := do
  let ⟨name, r₁, h₁⟩ ← readUInt32 r
  let ⟨arity, r₂, h₂⟩ ← readUInt32 r₁
  let ⟨line, r₃, h₃⟩ ← readUInt32 r₂
  let ⟨file, r₄, h₄⟩ ← readUInt32 r₃
  let ⟨body, r₅, h₅⟩ ← readBody r₄
  return ⟨{ name, arity, line, file, body }, r₅, by omega⟩

/-- Reads the mark and the version that a stored image begins with. -/
def readHeader (r : Reader) : Except Damage Reader := do
  let ⟨mark, r₁, _⟩ ← readUInt32 r
  if mark ≠ magic then throw .notAnImage
  let ⟨n, r₂, _⟩ ← readWord r₁ 2 (by decide)
  if UInt16.ofNat n ≠ version then throw (.unsupportedVersion (UInt16.ofNat n))
  return r₂

/-- The image that bytes store. -/
def decode (bytes : List UInt8) : Except Damage Image := do
  let r ← readHeader (Reader.ofBytes bytes)
  let ⟨n, r, _⟩ ← readCount r
  let ⟨texts, r, _⟩ ← readTexts n 0 r
  let ⟨shapes, r, _⟩ ← readTable (readTable readUInt32) r
  let ⟨builtins, r, _⟩ ← readTable readSignature r
  let ⟨globals, r, _⟩ ← readTable readUInt32 r
  let ⟨m, r, _⟩ ← readCount r
  let ⟨functions, r, _⟩ ← readMany readFunction m (r.align 8)
  let ⟨body, r, _⟩ ← readBody r
  if r.left > 0 then throw (.trailing r.left)
  return ⟨texts, shapes, { builtins, globals, functions, body }⟩

end TickScript.Image
