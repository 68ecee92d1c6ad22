import TickScript.Cause
import TickScript.Location

/-!
# Diagnostics and faults

A **diagnostic** says why a script was refused and where. A **fault** says why a running program
stopped: beside cause and location it may carry a detail in words, and it lists the calls that were
active, latest first, each with the line that made the call.
-/

namespace TickScript

/-- Why a script was refused, and where. -/
structure Diagnostic where
  cause : Cause
  location : Location
deriving Repr, DecidableEq

/-- The diagnostic on one line. -/
def Diagnostic.text (d : Diagnostic) : String :=
  s!"[{d.cause.id}] {d.cause.message} ({d.location.text})"

/-- An active call: the name of what was called and the line that called it. -/
structure CallSite where
  name : String
  location : Location
deriving Repr, DecidableEq

/-- Why a program stopped, and where. -/
structure Fault where
  cause : Cause
  location : Location
  detail : Option String
  trace : List CallSite
deriving Repr, DecidableEq

namespace Fault

/-- The detail as it follows the cause in words. -/
def detailText (f : Fault) : String :=
  match f.detail with
  | some d => ": " ++ d
  | none => ""

/-- The fault on one line. -/
def text (f : Fault) : String :=
  s!"[{f.cause.id}] {f.cause.message}{f.detailText} ({f.location.text})"

/-- The fault as the owner of the program reads it: the cause, the place and the active calls. -/
def report (f : Fault) : List String :=
  s!"ERROR: {f.cause.message}{f.detailText} [{f.cause.id}]" :: s!"  at {f.location.text}" ::
    match f.trace with
    | [] => []
    | calls => "Backtrace (latest call first):" ::
        calls.map fun c => s!"  at '{c.name}' ({c.location.text})"

end Fault

end TickScript
