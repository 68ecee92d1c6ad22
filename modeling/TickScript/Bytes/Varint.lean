/-!
# Numbers of variable length

A number is written in base 128, the lowest digit first; every byte but the last has its high bit
set. A reader accepts longer forms than a writer makes, up to a number of places that depends on how
large the number may be: with as many places as the largest number needs, the digit at the last place
must not carry the number past it.
-/

namespace TickScript.Bytes

/-- A number in base 128. -/
def varint (n : Nat) : List UInt8 :=
  if n < 128 then [UInt8.ofNat n] else UInt8.ofNat (n % 128 + 128) :: varint (n / 128)
termination_by n

/-- Why a number in base 128 cannot be read. -/
inductive VarintError where
  | cutOff
  | tooLong
deriving Repr, DecidableEq

/-- Reads a number in base 128 with one place more than `places`, and a digit of at most `last` at
the last place. -/
def readVarint (places last : Nat) : List UInt8 → Except VarintError (Nat × List UInt8)
  | [] => .error .cutOff
  | b :: rest =>
    if b.toNat < 128 then
      if places = 0 ∧ last < b.toNat then .error .tooLong else .ok (b.toNat, rest)
    else
      match places with
      | 0 => .error .tooLong
      | places + 1 =>
        match readVarint places last rest with
        | .ok (n, rest') => .ok (b.toNat - 128 + 128 * n, rest')
        | .error e => .error e

/-- Reads a number of 32 bits. -/
def readVarint32 (bytes : List UInt8) : Except VarintError (Nat × List UInt8) :=
  readVarint 4 0x0F bytes

/-- Reads a number of 64 bits. -/
def readVarint64 (bytes : List UInt8) : Except VarintError (Nat × List UInt8) :=
  readVarint 9 0x01 bytes

end TickScript.Bytes
