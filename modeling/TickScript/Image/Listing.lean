import TickScript.Image
import TickScript.Decimal.Notation
import TickScript.Text.Columns
import TickScript.Text.Quoted

/-!
# Listings of images

A listing shows the tables of an image and then every body, one instruction a line, with nested
bodies indented below their owner. Whatever an instruction mentions by number is also named, and a
number without an entry is said to be bad, so damaged images can be listed too.
-/

namespace TickScript.Image

/-- The text with a number, as listings show it. -/
def textOrBad (image : Image) (id : UInt32) : String :=
  (image.text? id).getD s!"<bad string #{id}>"

/-- The operator's word in listings. -/
def unaryMnemonic : UnaryOp → String
  | .negate => "NEGATE"
  | .not => "NOT"

/-- The operator's word in listings. -/
def binaryMnemonic : BinaryOp → String
  | .add => "ADD"
  | .sub => "SUB"
  | .mul => "MUL"
  | .div => "DIV"
  | .rem => "REM"
  | .less => "LT"
  | .lessEqual => "LE"
  | .greater => "GT"
  | .greaterEqual => "GE"
  | .equal => "EQ"
  | .notEqual => "NE"
  | .and => "AND"
  | .or => "OR"

/-- An instruction with what it mentions, the mnemonic in a column of its own. -/
def operandLine (mnemonic operand : String) : String := Text.padRight 13 mnemonic ++ " " ++ operand

/-- A number with the name it stands for. -/
def namedNumber (id : UInt32) (name : Option String) : String :=
  toString id ++ " ; " ++ name.getD "?"

/-- The name of a global. -/
def globalLabel? (image : Image) (slot : UInt32) : Option String :=
  image.program.globals[slot.toNat]?.map image.textOrBad

/-- The name of a function. -/
def functionLabel? (image : Image) (id : UInt32) : Option String :=
  image.program.functions[id.toNat]?.map fun f => image.textOrBad f.name

/-- The name of a function of the host. -/
def builtinLabel? (image : Image) (id : UInt32) : Option String :=
  image.program.builtins[id.toNat]?.map fun b => image.textOrBad b.name

/-- The start of a line at a depth of nesting. -/
def gutter (depth : Nat) : String := String.join (List.replicate depth "│ ")

/-- The lines of a nested body between its head and its foot. -/
def nested (depth : Nat) (label : String) (size : Nat) (lines : List String) : List String :=
  s!"{gutter depth}┌─ {label} ({size} instructions)" :: lines ++ [s!"{gutter depth}└─"]

/-- The lines of an instruction with its position in front of the first. -/
def numbered (depth position : Nat) : List String → List String
  | [] => []
  | first :: others => s!"{gutter depth}{Text.zeroPadded 4 position}  {first}" :: others

mutual

/-- The lines of an instruction, the first without its position. -/
def instrLines (image : Image) (depth : Nat) : Op → List String
  | .line n => [operandLine "SOURCE_LINE" (toString n)]
  | .file s => [operandLine "SOURCE_FILE" s!"#{s} ; {image.textOrBad s}"]
  | .discard => ["DISCARD"]
  | .pushNull => ["LOAD_NULL"]
  | .pushInt n => [operandLine "LOAD_INT" (Decimal.intText n.toInt)]
  | .pushFloat bits => [operandLine "LOAD_FLOAT" (Decimal.floatText (.ofBits bits))]
  | .pushText s => [operandLine "LOAD_STRING" s!"#{s} ; {Text.quoted (image.textOrBad s)}"]
  | .makeTuple n => [operandLine "LOAD_TUPLE" (toString n)]
  | .makeObject shape => [operandLine "LOAD_OBJECT" s!"@{shape}"]
  | .makeArray n => [operandLine "LOAD_ARRAY" (toString n)]
  | .tupleMember i => [operandLine "LOAD_MEMBER" s!".{i}"]
  | .objectMember s => [operandLine "LOAD_MEMBER" s!".{image.textOrBad s}"]
  | .element => ["LOAD_ELEMENT"]
  | .loadGlobal slot => [operandLine "LOAD_GLOBAL" (namedNumber slot (image.globalLabel? slot))]
  | .loadLocal slot => [operandLine "LOAD_LOCAL" (toString slot)]
  | .unary op => [unaryMnemonic op]
  | .binary op => [binaryMnemonic op]
  | .storeGlobal slot => [operandLine "STORE_GLOBAL" (namedNumber slot (image.globalLabel? slot))]
  | .pushLocal => ["PUSH_LOCAL"]
  | .storeLocal slot => [operandLine "STORE_LOCAL" (toString slot)]
  | .storeMember s => [operandLine "STORE_MEMBER" s!".{image.textOrBad s}"]
  | .storeElement => ["STORE_ELEMENT"]
  | .branch yes no =>
    "IF" :: (nested depth "then" yes.length (instrsLines image (depth + 1) 0 yes) ++
      if no.isEmpty then [] else nested depth "else" no.length (instrsLines image (depth + 1) 0 no))
  | .loop body => "LOOP" :: nested depth "body" body.length (instrsLines image (depth + 1) 0 body)
  | .tick body => "TICK" :: nested depth "body" body.length (instrsLines image (depth + 1) 0 body)
  | .continueLoop => ["CONTINUE"]
  | .breakLoop => ["BREAK"]
  | .call id => [operandLine "CALL" (namedNumber id (image.functionLabel? id))]
  | .callBuiltin id => [operandLine "CALL_BUILTIN" (namedNumber id (image.builtinLabel? id))]
  | .giveBack => ["RETURN"]

/-- The lines of instructions, the first of which has the given position. -/
def instrsLines (image : Image) (depth position : Nat) : List Op → List String
  | [] => []
  | i :: is => numbered depth position (instrLines image depth i) ++
      instrsLines image depth (position + 1) is

end

/-- The lines that begin and end the title of a body. -/
def rule : String := "════════════════════════════════════════"

/-- The lines of a body below its title. -/
def bodyLines (image : Image) (title : String) (body : List Op) : List String :=
  [rule, s!" {title}", s!" {body.length} instructions", rule] ++ instrsLines image 0 0 body ++ [""]

/-- The lines of a table: its title, and its entries with their numbers. -/
def tableLines {α : Type} (title mark : String) (entry : α → String) (table : List α) : List String :=
  title :: table.zipIdx.map fun (a, id) =>
    let width := 5 - mark.length
    s!"  {mark}{Text.padRight width (toString id)} {entry a}"

/-- The lines of a table, or none if it has no entries. -/
def tableLinesIfAny {α : Type} (title mark : String) (entry : α → String) (table : List α) :
    List String :=
  if table.isEmpty then [] else tableLines title mark entry table

/-- The lines of the listing. -/
def listingLines (image : Image) : List String :=
  let p := image.program
  ["=== BYTECODE PROGRAM ===", ""]
    ++ tableLines "strings:" "#" Text.quoted image.texts
    ++ tableLinesIfAny "shapes:" "@"
      (fun names => "\x7b" ++ ", ".intercalate (names.map image.textOrBad) ++ "\x7d") image.shapes
    ++ tableLinesIfAny "builtins:" ""
      (fun b => s!"{image.textOrBad b.name}/{b.arity} cost {b.cost}") p.builtins
    ++ tableLinesIfAny "globals:" "" image.textOrBad p.globals
    ++ [""]
    ++ (p.functions.zipIdx.map fun (f, id) =>
        image.bodyLines
          s!"fun[{id}] {image.textOrBad f.name}/{f.arity}  ({image.textOrBad f.file}:{f.line})"
          f.body).flatten
    ++ image.bodyLines "global" p.body

/-- The listing, each line ended. A text that a line shows as it is may hold line ends of its own. -/
def listing (image : Image) : String := String.join (image.listingLines.map (· ++ "\n"))

end TickScript.Image
