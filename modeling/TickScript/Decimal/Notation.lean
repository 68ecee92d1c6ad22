import TickScript.Decimal.Shortest

/-!
# Written numbers

How the digits of a float are laid out: positionally from a ten-thousandth up to below ten to the
sixteenth, with at least one digit on either side of the point; outside of that range with the
point after the first digit and an exponent.
-/

namespace TickScript.Decimal

/-- The digits of a number in decimal. -/
def digitText (n : Nat) : List Char := Nat.toDigits 10 n

/-- A whole number in decimal with its sign. -/
def intText (n : Int) : String :=
  match n with
  | .ofNat k => String.ofList (digitText k)
  | .negSucc k => String.ofList ('-' :: digitText (k + 1))

/-- The digits with a point after the first `whole` of them. Zeros fill up what is missing on either
side. -/
def positional (digits : List Char) (whole : Int) : List Char :=
  if whole ≤ 0 then
    '0' :: '.' :: (List.replicate (-whole).toNat '0' ++ digits)
  else if digits.length ≤ whole.toNat then
    digits ++ List.replicate (whole.toNat - digits.length) '0' ++ ['.', '0']
  else
    digits.take whole.toNat ++ '.' :: digits.drop whole.toNat

/-- The digits with the point after the first one, and an exponent. -/
def scientific (digits : List Char) (exponent : Int) : List Char :=
  let mantissa := match digits with
    | d :: e :: rest => d :: '.' :: e :: rest
    | short => short
  mantissa ++ 'e' :: (intText exponent).toList

/-- A positive decimal as it is written. -/
def Numeral.text (d : Numeral) : List Char :=
  let digits := digitText d.digits
  let leading := d.exponent + digits.length - 1
  if -4 ≤ leading ∧ leading < 16 then positional digits (leading + 1) else scientific digits leading

/-- The text of a float: the fewest digits that read back, and words for what is not finite. -/
def floatText (x : Float) : String :=
  if x.isNaN then "NaN"
  else
    let size := if x.isInf then "inf".toList
      else if x == 0.0 then "0.0".toList
      else match shortest x with
        | some d => d.text
        | none => []
    String.ofList (if Binary64.isNegative x then '-' :: size else size)

/-- The float nearest to a number written with the given digits before and after the point. -/
def readFloat (whole fraction : List Char) : Float :=
  let value := (whole ++ fraction).foldl (fun n c => 10 * n + (c.toNat - '0'.toNat)) 0
  Float.ofScientific value true fraction.length

end TickScript.Decimal
