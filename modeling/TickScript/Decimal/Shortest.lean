import TickScript.Binary64

/-!
# The fewest digits that read back

A float is written with the fewest decimal digits that lead back to it. The reals that round to a
number form an interval around it, from halfway to its lower neighbour to halfway to its upper one;
the ends belong to it exactly when the significand is even. For one digit, two digits and so on,
`shortest` tries the two neighbours of the value on the decimal grid of that many digits, and the
first grid with one of them inside the interval wins. Everything is compared in whole numbers.
-/

namespace TickScript.Decimal

/-- A decimal number, `digits * 10 ^ exponent`. -/
structure Numeral where
  digits : Nat
  exponent : Int
deriving Repr, DecidableEq

/-- A positive value `num / den` with the interval of reals that round to it: the ends are
`low / (4 * den)` and `high / (4 * den)`. -/
structure Rounding where
  num : Nat
  den : Nat
  low : Nat
  high : Nat
  closed : Bool

/-- The interval around a number with the given significand and exponent. Just above a power of two
the lower neighbour is half as far away as the upper one. -/
def Rounding.ofParts (significand : Nat) (exponent : Int) (tightBelow : Bool) : Rounding where
  num := significand <<< exponent.toNat
  den := 1 <<< (-exponent).toNat
  low := (4 * significand - if tightBelow then 1 else 2) <<< exponent.toNat
  high := (4 * significand + 2) <<< exponent.toNat
  closed := significand % 2 == 0

/-- Whether a decimal lies in the interval, and so reads back to the value. -/
def Rounding.contains (r : Rounding) (d : Numeral) : Bool :=
  let x := 4 * r.den * d.digits * Nat.pow 10 d.exponent.toNat
  let scale := Nat.pow 10 (-d.exponent).toNat
  let low := r.low * scale
  let high := r.high * scale
  (low < x || (r.closed && low == x)) && (x < high || (r.closed && x == high))

/-- How many decimal digits a number has. -/
def digitCount (n : Nat) : Nat := (Nat.toDigits 10 n).length

/-- The exponent `k` with `10 ^ (k - 1) ≤ num / den < 10 ^ k`. -/
def Rounding.scale (r : Rounding) : Int :=
  if r.den ≤ r.num then digitCount (r.num / r.den) else 1 - (digitCount (r.den / r.num) : Int)

/-- The neighbour of the value on the grid of the given exponent that reads back, if there is one.
Of two the nearer is taken, and the upper one if both are equally near. -/
def Rounding.onGrid? (r : Rounding) (exponent : Int) : Option Numeral :=
  let num := r.num * Nat.pow 10 (-exponent).toNat
  let den := r.den * Nat.pow 10 exponent.toNat
  let below : Numeral := ⟨num / den, exponent⟩
  let above : Numeral := ⟨num / den + 1, exponent⟩
  match r.contains below, r.contains above with
  | true, true => some (if 2 * (num % den) < den then below else above)
  | true, false => some below
  | false, true => some above
  | false, false => none

/-- The value itself: each binary fraction is a decimal one. -/
def Rounding.exactly (r : Rounding) : Numeral :=
  ⟨r.num * Nat.pow 5 r.den.log2, -(r.den.log2 : Int)⟩

/-- Moves up to `fuel` trailing zeros of the digits into the exponent. -/
def dropZeros : Nat → Numeral → Numeral
  | 0, d => d
  | fuel + 1, d =>
    if d.digits ≠ 0 ∧ d.digits % 10 = 0 then dropZeros fuel ⟨d.digits / 10, d.exponent + 1⟩ else d

/-- The decimal with the fewest digits that reads back, nearest to the value among those. Seventeen
digits are always enough. -/
def Rounding.shortest (r : Rounding) : Numeral :=
  let found := (List.range 17).findSome? fun (n : Nat) => r.onGrid? (r.scale - (n + 1))
  let d := found.getD r.exactly
  dropZeros (digitCount d.digits) d

/-- The shortest decimal of the size of a finite nonzero number. -/
def shortest (x : Float) : Option Numeral :=
  match Binary64.parts? x with
  | none => none
  | some p =>
    let tight := Binary64.fractionField x == 0 && Binary64.exponentField x > 1
    some (Rounding.ofParts p.significand p.exponent tight).shortest

end TickScript.Decimal
