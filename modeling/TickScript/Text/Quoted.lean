import TickScript.Text.Marked

/-!
# Quoted text

A text inside a listing stands between double quotes. The quote and the backslash, the three line
characters and the null character have a letter of their own; a character that leaves no mark is
written by its code point; every other character stands for itself.
-/

namespace TickScript.Text

/-- The letter that stands behind a backslash for a character, if it has one. -/
def escapeLetter? : Char → Option Char
  | '"' => some '"'
  | '\\' => some '\\'
  | '\n' => some 'n'
  | '\r' => some 'r'
  | '\t' => some 't'
  | '\x00' => some '0'
  | _ => none

/-- One character as quoted text shows it. -/
def quoteChar (c : Char) : List Char :=
  match escapeLetter? c with
  | some l => ['\\', l]
  | none =>
    if isMarked c then [c]
    else '\\' :: 'u' :: '\x7b' :: (Nat.toDigits 16 c.toNat ++ ['\x7d'])

/-- The text between double quotes, with what would not show escaped. -/
def quoted (s : String) : String :=
  String.ofList ('"' :: (s.toList.flatMap quoteChar ++ ['"']))

/-! ## Quotes of the data interchange kind -/

/-- A control character by four hexadecimal digits. -/
def unitEscape (c : Char) : List Char :=
  let digits := Nat.toDigits 16 c.toNat
  '\\' :: 'u' :: (List.replicate (4 - digits.length) '0' ++ digits)

/-- One character of a text in an outline: controls are escaped and nothing else is hidden. -/
def outlineChar : Char → List Char
  | '"' => ['\\', '"']
  | '\\' => ['\\', '\\']
  | '\n' => ['\\', 'n']
  | '\r' => ['\\', 'r']
  | '\t' => ['\\', 't']
  | '\x08' => ['\\', 'b']
  | '\x0c' => ['\\', 'f']
  | c => if c.toNat < 0x20 then unitEscape c else [c]

/-- The text between double quotes as outlines write it. -/
def outlineQuoted (s : String) : String :=
  String.ofList ('"' :: (s.toList.flatMap outlineChar ++ ['"']))

end TickScript.Text
