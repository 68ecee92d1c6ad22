import TickScript.Compile
import TickScript.Bytes.Varint
import TickScript.Bytes.Reader

/-!
# Delivering what compiling came to

What compiling a script came to is sent to the script's owner: the stored image, or the diagnostic
to show beside the script. On the wire it says for itself where it ends, so more may follow it.
-/

namespace TickScript

/-- What compiling a script came to. -/
inductive Delivery where
  | image (bytes : List UInt8)
  | refusal (d : Diagnostic)
deriving Repr, DecidableEq

/-- Why bytes are no delivery. -/
inductive WireError where
  | cutOff
  | badVarint
  | badText
  | unknownCase
deriving Repr, DecidableEq

/-- The error in words. -/
def WireError.text : WireError → String
  | cutOff => "Hit the end of buffer, expected more data"
  | badVarint => "Found a varint that didn't terminate. Is the usize too big for this platform?"
  | badText => "Tried to parse invalid utf-8"
  | unknownCase => "Serde Deserialization Error"

/-- An error in a number of variable length. -/
def WireError.ofVarint : Bytes.VarintError → WireError
  | .cutOff => .cutOff
  | .tooLong => .badVarint

namespace Delivery

open Bytes (varint readVarint32 readVarint64 split?)

/-- The delivery of a result. -/
def ofResult : Except Diagnostic (List UInt8) → Delivery
  | .ok bytes => .image bytes
  | .error d => .refusal d

/-- Bytes with their number in front. -/
def counted (bytes : List UInt8) : List UInt8 := varint bytes.length ++ bytes

/-- A delivery on the wire. -/
def toWire : Delivery → List UInt8
  | image bytes => varint 0 ++ counted bytes
  | refusal d =>
    varint 1 ++ varint d.cause.index ++ varint d.location.line.toNat ++
      counted d.location.file.toUTF8.toList

/-- Reads a number of 32 bits. -/
def read32 (bytes : List UInt8) : Except WireError (Nat × List UInt8) :=
  (readVarint32 bytes).mapError .ofVarint

/-- Reads bytes with their number in front. -/
def readCounted (bytes : List UInt8) : Except WireError (List UInt8 × List UInt8) := do
  let (n, rest) ← (readVarint64 bytes).mapError .ofVarint
  match split? n rest with
  | some r => .ok r
  | none => .error .cutOff

/-- Reads a text with the number of its bytes in front. -/
def readText (bytes : List UInt8) : Except WireError (String × List UInt8) := do
  let (text, rest) ← readCounted bytes
  match String.fromUTF8? ⟨text.toArray⟩ with
  | some s => .ok (s, rest)
  | none => .error .badText

/-- Reads a diagnostic. -/
def readDiagnostic (bytes : List UInt8) : Except WireError (Diagnostic × List UInt8) := do
  let (index, rest) ← read32 bytes
  match Cause.ofIndex? index with
  | none => .error .unknownCase
  | some cause =>
    let (line, rest) ← read32 rest
    let (file, rest) ← readText rest
    return (⟨cause, ⟨UInt32.ofNat line, file⟩⟩, rest)

/-- The delivery that bytes begin with. -/
def ofWire (bytes : List UInt8) : Except WireError Delivery := do
  let (tag, rest) ← read32 bytes
  match tag with
  | 0 => do
    let (stored, _) ← readCounted rest
    return .image stored
  | 1 => do
    let (d, _) ← readDiagnostic rest
    return .refusal d
  | _ => .error .unknownCase

end Delivery

end TickScript
