/-!
# Numbers in binary64

Floats of scripts are binary64 numbers. The operations that core leaves open are computed here on
the integers that the bits stand for: a finite number is `± significand * 2 ^ exponent`, its whole
part and its remainder by another number are integer divisions of such products, and each result is
exact, so none of them rounds.
-/

namespace TickScript.Binary64

/-- A finite number, `± significand * 2 ^ exponent`. -/
structure Parts where
  negative : Bool
  significand : Nat
  exponent : Int
deriving Repr, DecidableEq

/-- Whether the sign bit is set. It is for a negative zero too. -/
def isNegative (x : Float) : Bool := (x.toBits >>> 63) != 0

/-- The biased exponent field. -/
def exponentField (x : Float) : Nat := ((x.toBits >>> 52) &&& 0x7FF).toNat

/-- The field below the leading bit of the significand. -/
def fractionField (x : Float) : Nat := (x.toBits &&& 0xFFFFFFFFFFFFF).toNat

/-- The leading bit of a significand that has all its bits, which is not stored. -/
def leadingBit : Nat := 4503599627370496

/-- What a finite number is made of; `none` for the infinities and for what is no number. -/
def parts? (x : Float) : Option Parts :=
  let e := exponentField x
  let f := fractionField x
  if e = 0x7FF then none
  else if e = 0 then some ⟨isNegative x, f, -1074⟩
  else some ⟨isNegative x, leadingBit + f, (e : Int) - 1075⟩

/-- The number with the given parts, which must fit binary64 exactly. -/
def ofParts (p : Parts) : Float :=
  let sign : UInt64 := if p.negative then 0x8000000000000000 else 0
  if p.significand = 0 then Float.ofBits sign
  else
    let width := p.significand.log2 + 1
    let leading : Int := p.exponent + width - 1
    if leading < -1022 then
      let shift := p.exponent + 1074
      let f := p.significand <<< shift.toNat >>> (-shift).toNat
      Float.ofBits (sign ||| f.toUInt64)
    else
      let s := p.significand <<< (53 - width) >>> (width - 53)
      let e := (leading + 1023).toNat
      Float.ofBits (sign ||| ((e <<< 52) + (s - leadingBit)).toUInt64)

/-- The greatest integer of 64 signed bits. -/
def greatestInt : Int := 9223372036854775807

/-- The least integer of 64 signed bits. -/
def leastInt : Int := -9223372036854775808

/-- The whole part of a number, toward zero and held within 64 signed bits; zero for what is no
number. -/
def truncate (x : Float) : Int64 :=
  match parts? x with
  | none => if x.isNaN then 0 else Int64.ofInt (if isNegative x then leastInt else greatestInt)
  | some p =>
    let size : Nat := p.significand <<< p.exponent.toNat >>> (-p.exponent).toNat
    let whole : Int := if p.negative then -size else size
    Int64.ofInt (max leastInt (min greatestInt whole))

/-- The remainder of a division whose quotient is cut toward zero. It takes the sign of the
dividend; there is none by zero or of an infinite dividend. -/
def remainder (x y : Float) : Float :=
  match parts? x, parts? y with
  | some p, some d =>
    if d.significand = 0 then 0.0 / 0.0
    else
      let e := min p.exponent d.exponent
      let a := p.significand <<< (p.exponent - e).toNat
      let b := d.significand <<< (d.exponent - e).toNat
      ofParts ⟨p.negative, a % b, e⟩
  | some _, none => if y.isNaN then y else x
  | none, _ => 0.0 / 0.0

/-- The smaller of two numbers; of a number and what is no number, the number. -/
def smaller (x y : Float) : Float :=
  if x.isNaN then y else if y < x then y else x

/-- The larger of two numbers; of a number and what is no number, the number. -/
def larger (x y : Float) : Float :=
  if x.isNaN then y else if x < y then y else x

/-- The number nearest to an integer, of two the one with the even significand. -/
def ofInt64 (n : Int64) : Float := Float.ofInt n.toInt

end TickScript.Binary64
