/-!
# Locations

A location is a line of a named file. Tokens, statements, instructions and every report of a failure
carry one. Lines are counted from one; line zero belongs to a program that has not started.
-/

namespace TickScript

/-- A line of a named file. -/
structure Location where
  line : UInt32
  file : String
deriving Repr, DecidableEq, Inhabited

/-- The file of what belongs to no file. -/
def Location.noFile : String := "<unknown>"

/-- The location as reports show it. -/
def Location.text (l : Location) : String :=
  s!"line {l.line}, file '{l.file}'"

end TickScript
