import TickScript.Image

/-!
# Opcodes

In a stored image every instruction begins with a byte that says which one it is. What follows the
byte depends on it: nothing, a word of four bytes, a number of eight bytes, or the bodies of a branch
or a loop.
-/

namespace TickScript

/-- The opcode of an operator in front of one operand. -/
def UnaryOp.opcode : UnaryOp → UInt8
  | .negate => 0x25
  | .not => 0x2E

/-- The opcode of an operator between two operands. -/
def BinaryOp.opcode : BinaryOp → UInt8
  | .add => 0x20
  | .sub => 0x21
  | .mul => 0x22
  | .div => 0x23
  | .rem => 0x24
  | .less => 0x26
  | .lessEqual => 0x27
  | .greater => 0x28
  | .greaterEqual => 0x29
  | .equal => 0x2A
  | .notEqual => 0x2B
  | .and => 0x2C
  | .or => 0x2D

namespace Opcode

/-- The instruction that an opcode stands for by itself. -/
def plain? : UInt8 → Option Op
  | 0x02 => some .discard
  | 0x10 => some .pushNull
  | 0x19 => some .element
  | 0x20 => some (.binary .add)
  | 0x21 => some (.binary .sub)
  | 0x22 => some (.binary .mul)
  | 0x23 => some (.binary .div)
  | 0x24 => some (.binary .rem)
  | 0x25 => some (.unary .negate)
  | 0x26 => some (.binary .less)
  | 0x27 => some (.binary .lessEqual)
  | 0x28 => some (.binary .greater)
  | 0x29 => some (.binary .greaterEqual)
  | 0x2A => some (.binary .equal)
  | 0x2B => some (.binary .notEqual)
  | 0x2C => some (.binary .and)
  | 0x2D => some (.binary .or)
  | 0x2E => some (.unary .not)
  | 0x31 => some .pushLocal
  | 0x34 => some .storeElement
  | 0x43 => some .continueLoop
  | 0x44 => some .breakLoop
  | 0x47 => some .giveBack
  | _ => none

/-- The instruction that an opcode and a word of four bytes stand for. -/
def worded? : UInt8 → Option (UInt32 → Op)
  | 0x00 => some .line
  | 0x01 => some .file
  | 0x13 => some .pushText
  | 0x14 => some .makeTuple
  | 0x15 => some .makeObject
  | 0x16 => some .makeArray
  | 0x17 => some .tupleMember
  | 0x18 => some .objectMember
  | 0x1A => some .loadGlobal
  | 0x1B => some .loadLocal
  | 0x30 => some .storeGlobal
  | 0x32 => some .storeLocal
  | 0x33 => some .storeMember
  | 0x45 => some .call
  | 0x46 => some .callBuiltin
  | _ => none

end Opcode

end TickScript
