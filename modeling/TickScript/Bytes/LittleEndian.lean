/-!
# Little-endian words

A word of some bytes is a number written in base 256, the lowest digit first. Writing keeps as many
digits as the word has room for; reading gives the number back.
-/

namespace TickScript.Bytes

/-- The lowest bytes of a number, the lowest first. -/
def littleEndian : Nat → Nat → List UInt8
  | 0, _ => []
  | width + 1, n => UInt8.ofNat (n % 256) :: littleEndian width (n / 256)

/-- The number that bytes stand for, the lowest first. -/
def number : List UInt8 → Nat
  | [] => 0
  | b :: bs => b.toNat + 256 * number bs

@[simp] theorem length_littleEndian (width n : Nat) : (littleEndian width n).length = width := by
  induction width generalizing n with
  | zero => rfl
  | succ width ih => simp [littleEndian, ih]

/-- What does not fit into the bytes of a word is cut off. -/
theorem number_littleEndian (width n : Nat) :
    number (littleEndian width n) = n % Nat.pow 256 width := by
  induction width generalizing n with
  | zero => exact (Nat.mod_one n).symm
  | succ width ih =>
    have hp : Nat.pow 256 (width + 1) = 256 * Nat.pow 256 width := Nat.mul_comm _ _
    have hb : (UInt8.ofNat (n % 256)).toNat = n % 256 := by simp
    rw [littleEndian, number, ih, hp, Nat.mod_mul, hb]

/-- How many bytes lie between an offset and the next multiple of an alignment. -/
def padding (alignment offset : Nat) : Nat := (alignment - offset % alignment) % alignment

end TickScript.Bytes
