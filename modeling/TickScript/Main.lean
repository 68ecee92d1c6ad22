import TickScript.CommandLine

/-!
# The program

Reads the files that the arguments name, computes what the call comes to, and carries it out.
-/

namespace TickScript.Main

/-- Why the disk refused, in words. -/
def reason : IO.Error → String
  | .noFileOrDirectory .. => "No such file or directory (os error 2)"
  | e => toString e

/-- The text of a file, or why it cannot be read. -/
def readText (path : String) : IO (Except String String) := do
  try
    let bytes ← IO.FS.readBinFile path
    match String.fromUTF8? bytes with
    | some text => return .ok text
    | none => return .error "stream did not contain valid UTF-8"
  catch e => return .error (reason e)

/-- Prints what a call comes to. -/
def print (reply : CommandLine.Reply) : IO UInt32 := do
  (← IO.getStdout).putStr reply.output
  (← IO.getStderr).putStr reply.errors
  return reply.code.toUInt32

end TickScript.Main

open TickScript in
/-- Runs the command. -/
def main (args : List String) : IO UInt32 := do
  let texts ← (CommandLine.paths args).mapM fun path => do
    return (path, ← Main.readText path)
  let disk : CommandLine.Disk := {
    read := fun path => (texts.lookup path).getD (.error "No such file or directory (os error 2)")
    write := fun _ => .ok () }
  let reply := CommandLine.run disk args
  match reply.file with
  | none => Main.print reply
  | some (path, bytes) =>
    try
      IO.FS.writeBinFile path ⟨bytes.toArray⟩
      Main.print reply
    catch e =>
      Main.print (CommandLine.run { disk with write := fun _ => .error (Main.reason e) } args)
