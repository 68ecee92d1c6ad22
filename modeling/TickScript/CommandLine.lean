import TickScript.Delivery
import TickScript.Image.Decode
import TickScript.Image.Listing
import TickScript.Processor
import TickScript.Syntax.Dump
import TickScript.Text.Blank
import TickScript.Text.Split
import TickScript.Tick
import TickScript.Token.Listing

/-!
# The command line

The command compiles the files it is given and runs the program, or shows one of the forms that a
script takes on the way: its tokens, its tree, or its image. What a call of the command comes to
depends on the arguments and on the disk only, and is computed here without touching either.

Arguments are looked at in a fixed order, which decides what is reported when several are wrong: the
number of ticks, the processor model, the features, and then the files one by one.
-/

namespace TickScript.CommandLine

/-- What the command can learn from the disk: the text of a file or why it cannot be read, and why a
file cannot be written. -/
structure Disk where
  read : String → Except String String
  write : String → Except String Unit

/-- What a call of the command comes to: what it prints, its exit code, and a file that it writes. -/
structure Reply where
  output : String
  errors : String
  code : UInt8
  file : Option (String × List UInt8)
deriving Repr, DecidableEq

/-- Lines, each ended. -/
def unlines (lines : List String) : String := String.join (lines.map (· ++ "\n"))

/-- A call that went well. -/
def Reply.success (lines : List String) : Reply := ⟨unlines lines, "", 0, none⟩

/-- A call that failed with a message. -/
def Reply.failure (message : String) : Reply := ⟨"", message ++ "\n", 1, none⟩

/-- How the command is used. -/
def usage : List String :=
  ["BIGTON - Robot Scripting Language",
    "",
    "Usage:",
    "  bigton <file.bt>...               Compile and run a program",
    "  bigton --tokens <file.bt>         Show tokens only (--no-color, --pretty)",
    "  bigton --ast <file.bt>            Show the syntax tree",
    "  bigton --bc <file.bt>             Show the disassembled binary, then run",
    "  bigton --features fpu,objects,memory,functions <file.bt>",
    "                                    Enable only the listed features",
    "  bigton --model bigton-2050 <file.bt>",
    "                                    Use a processor model's limits",
    "  bigton --ticks N <file.bt>        Stop after N ticks (default 100)",
    "  bigton --emit out.bin <file.bt>   Write the compilation outcome for a client",
    "  bigton --help, -h                 Show this help"]

/-! ## Options -/

/-- The argument after the first place of an option that has one. -/
def value? (args : List String) (flag : String) : Except Reply (Option String) :=
  match args.dropWhile (· != flag) with
  | [] => .ok none
  | [_] => .error (.failure s!"Error: {flag} expects a value")
  | _ :: value :: _ => .ok (some value)

/-- The number that a text stands for: digits after an optional plus sign, below `2 ^ 32`. -/
def readTicks? (s : String) : Option Nat :=
  let digits := match s.toList with
    | '+' :: rest => rest
    | cs => cs
  if digits.isEmpty || ! digits.all (fun c => '0' ≤ c && c ≤ '9') then none
  else
    let n := digits.foldl (fun n c => 10 * n + (c.toNat - '0'.toNat)) 0
    if n < UInt32.size then some n else none

/-- How many ticks the program may run for. -/
def ticks (args : List String) : Except Reply Nat := do
  match ← value? args "--ticks" with
  | none => return 100
  | some s =>
    match readTicks? s with
    | some n => return n
    | none => throw (.failure s!"Error: --ticks expects a number, got '{s}'")

/-- The processor that was asked for. -/
def processor? (args : List String) : Except Reply (Option Processor) := do
  match ← value? args "--model" with
  | none => return none
  | some s =>
    match Model.ofName? s with
    | some m => return some (.ofModel m)
    | none => throw (.failure s!"Error: unknown processor model '{s}'")

/-- The features of a list of names. -/
def readFeatures (list : String) : Except Reply FeatureSet := do
  let names := (Text.splitAt ',' list.toList).map fun piece => Text.trim (String.ofList piece)
  let fs ← (names.filter (! ·.isEmpty)).mapM fun name =>
    match Feature.ofName? name with
    | some f => .ok f
    | none => .error (.failure s!"Error: unknown feature '{name}'")
  return .ofList fs

/-- The features that were asked for, or else those of the processor. -/
def features (args : List String) (p : Option Processor) : Except Reply FeatureSet := do
  match ← value? args "--features", p with
  | some list, _ => readFeatures list
  | none, some p => return p.features
  | none, none => return .full

/-- Whether an option stands among the arguments. -/
def isSet (args : List String) (flag : String) : Bool := args.contains flag

/-! ## Files -/

/-- The last part of a path. -/
def fileName (path : String) : List Char :=
  (((Text.splitAt '/' path.toList).filter fun part => part ≠ [] ∧ part ≠ ['.']).getLast?).getD []

/-- Whether a path names a script: what follows the last point of its name is `bt`, and something
precedes it. -/
def isScript (path : String) : Bool :=
  match (fileName path).reverse with
  | 't' :: 'b' :: '.' :: _ :: _ => true
  | _ => false

/-- The arguments that name files: those that are no options and no values of options. -/
def paths : List String → List String
  | [] => []
  | arg :: args =>
    if ["--features", "--ticks", "--model", "--emit"].contains arg then
      match args with
      | [] => []
      | _ :: args => paths args
    else if arg.startsWith "-" then paths args
    else arg :: paths args

/-- Reads the files of a script, of which there must be one at least. -/
def readFiles (disk : Disk) (args : List String) : Except Reply (List SourceFile) := do
  let files ← (paths args).mapM fun path =>
    if ! isScript path then .error (.failure s!"Error: expected a .bt file, got {path}")
    else
      match disk.read path with
      | .ok text => .ok { name := path, text }
      | .error e => .error (.failure s!"Failed to read '{path}': {e}")
  if files.isEmpty then throw ⟨unlines usage, "", 1, none⟩
  return files

/-! ## Commands -/

/-- Reports a diagnostic as the failure of a stage. -/
def orRefuse {α : Type} (stage : String) (r : Except Diagnostic α) : Except Reply α :=
  r.mapError fun d => .failure s!"{stage} error: {d.text}"

/-- Shows the tokens of a script. -/
def showTokens (args : List String) (files : List SourceFile) : Except Reply Reply := do
  let lexemes ← orRefuse "Lexer" (tokenizeFiles files)
  let style : ListingStyle := ⟨! isSet args "--no-color", isSet args "--pretty"⟩
  return .success (lexemes.map fun l => l.listed style)

/-- Writes what compiling a script came to. -/
def writeDelivery (disk : Disk) (path : String) (delivery : Delivery) : Reply :=
  match disk.write path with
  | .error e => .failure s!"Failed to write '{path}': {e}"
  | .ok _ =>
    match delivery with
    | .image _ => ⟨"", "", 0, some (path, delivery.toWire)⟩
    | .refusal d => ⟨"", s!"Compile error: {d.text}\n", 1, some (path, delivery.toWire)⟩

/-- Runs a program for some ticks or until it ends. The lines printed so far are listed from the
last. -/
def runTicks (r : Registry Unit) : Nat → Machine → List String → List String × UInt8
  | 0, _, printed => (printed, 0)
  | n + 1, m, printed =>
    let (report, m, _) := r.runTick m ()
    let printed := report.lines.reverse ++ printed
    match report.outcome with
    | .yielded | .suspended => runTicks r n m printed
    | .completed => (printed, 0)
    | .faulted _ => (printed, 1)

/-- Runs a stored program, after its listing if that was asked for. -/
def runImage (r : Registry Unit) (limits : Limits) (ticks : Nat) (listed : Bool)
    (bytes : List UInt8) : Except Reply Reply := do
  let listing ←
    if listed then
      match Image.decode bytes with
      | .ok image => pure image.listing
      | .error damage => throw (.failure s!"Decode error: {damage.text}")
    else pure ""
  match Machine.load bytes limits with
  | .error f => throw { Reply.failure s!"Load error: {f.text}" with output := listing }
  | .ok m =>
    let (printed, code) := runTicks r ticks m []
    return ⟨listing ++ unlines printed.reverse, "", code, none⟩

/-- Compiles a script and runs it, or shows its tree. -/
def runScript (args : List String) (features : FeatureSet) (limits : Limits) (r : Registry Unit)
    (ticks : Nat) (files : List SourceFile) : Except Reply Reply := do
  let lexemes ← orRefuse "Lexer" (tokenizeFiles files)
  let script ← orRefuse "Parse" (Parser.parse lexemes)
  if isSet args "--ast" then return .success (dumpScript script)
  let program ← orRefuse "Compile" (lowerScript features r.signatures script)
  runImage r limits ticks (isSet args "--bc" || isSet args "--bytecode") (Image.link program).encode

/-- What a call with arguments comes to. -/
def call (disk : Disk) (args : List String) : Except Reply Reply := do
  if args.isEmpty || isSet args "--help" || isSet args "-h" then return .success usage
  let n ← ticks args
  let p ← processor? args
  let fs ← features args p
  let files ← readFiles disk args
  if isSet args "--tokens" then return ← showTokens args files
  let r : Registry Unit := match p with
    | some p => p.registry []
    | none => .ofModules [.standard, .memory, .floatingPoint]
  match ← value? args "--emit" with
  | some path => return writeDelivery disk path (.ofResult (compile files fs r.signatures))
  | none => runScript args fs ((p.map Processor.limits).getD .least) r n files

/-- What a call of the command comes to. -/
def run (disk : Disk) (args : List String) : Reply :=
  match call disk args with
  | .ok reply => reply
  | .error reply => reply

end TickScript.CommandLine
