/-!
# UTF-16 units

Images store text by 16-bit units. A character beyond the first plane takes two, a high surrogate and
a low one; units are text only if their surrogates pair up.
-/

namespace TickScript.Text

/-- Whether a unit begins a pair. -/
def isHighSurrogate (u : UInt16) : Bool := 0xD800 ≤ u && u ≤ 0xDBFF

/-- Whether a unit ends a pair. -/
def isLowSurrogate (u : UInt16) : Bool := 0xDC00 ≤ u && u ≤ 0xDFFF

/-- The units of a character. -/
def charUnits (c : Char) : List UInt16 :=
  if c.toNat < 0x10000 then [UInt16.ofNat c.toNat]
  else
    let n := c.toNat - 0x10000
    [UInt16.ofNat (0xD800 + n / 0x400), UInt16.ofNat (0xDC00 + n % 0x400)]

/-- The units of a text. -/
def toUnits (s : String) : List UInt16 := s.toList.flatMap charUnits

/-- The character of a pair of surrogates. -/
def pairChar (high low : UInt16) : Char :=
  Char.ofNat (0x10000 + (high.toNat - 0xD800) * 0x400 + (low.toNat - 0xDC00))

/-- The characters of units whose surrogates pair up. -/
def unitChars? : List UInt16 → Option (List Char)
  | [] => some []
  | u :: rest =>
    if isHighSurrogate u then
      match rest with
      | low :: rest' =>
        if isLowSurrogate low then (unitChars? rest').map (pairChar u low :: ·) else none
      | [] => none
    else if isLowSurrogate u then none
    else (unitChars? rest).map (Char.ofNat u.toNat :: ·)

/-- The text of units whose surrogates pair up. -/
def ofUnits? (units : List UInt16) : Option String := (unitChars? units).map String.ofList

end TickScript.Text
