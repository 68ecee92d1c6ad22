/-!
# Columns

Listings align their columns: names are filled up with blanks on the right, positions with zeros on
the left. A text that is already as wide as its column is left alone.
-/

namespace TickScript.Text

/-- The text followed by blanks up to a width. -/
def padRight (width : Nat) (s : String) : String :=
  s ++ String.ofList (List.replicate (width - s.length) ' ')

/-- A number in decimal with leading zeros up to a width. -/
def zeroPadded (width n : Nat) : String :=
  let digits := Nat.toDigits 10 n
  String.ofList (List.replicate (width - digits.length) '0' ++ digits)

/-- A byte by two hexadecimal digits. -/
def hexByte (b : UInt8) : String :=
  let digits := Nat.toDigits 16 b.toNat
  String.ofList (List.replicate (2 - digits.length) '0' ++ digits)

end TickScript.Text
