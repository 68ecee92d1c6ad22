import TickScript.Bytes.LittleEndian

/-!
# Writing aligned words

Every word is written at an offset that is a multiple of its size; the bytes skipped for it are zero.
Offsets count from the start of what is written.
-/

namespace TickScript.Bytes

/-- What has been written so far. -/
structure Writer where
  bytes : Array UInt8
deriving Repr, DecidableEq

namespace Writer

/-- Nothing written yet. -/
def empty : Writer := ⟨#[]⟩

/-- How many bytes have been written. -/
def size (w : Writer) : Nat := w.bytes.size

/-- Whether nothing has been written. -/
def isEmpty (w : Writer) : Bool := w.bytes.isEmpty

/-- What has been written, in order. -/
def toList (w : Writer) : List UInt8 := w.bytes.toList

/-- Writes bytes as they are. -/
def raw (w : Writer) (bs : List UInt8) : Writer := ⟨bs.foldl Array.push w.bytes⟩

/-- Writes zeros up to a multiple of an alignment. -/
def align (w : Writer) (alignment : Nat) : Writer :=
  w.raw (List.replicate (padding alignment w.size) 0)

/-- Writes a word of the given size at an offset that is a multiple of it. -/
def word (w : Writer) (width n : Nat) : Writer := (w.align width).raw (littleEndian width n)

/-- Writes a byte. -/
def uint8 (w : Writer) (n : UInt8) : Writer := w.raw [n]

/-- Writes a word of two bytes. -/
def uint16 (w : Writer) (n : UInt16) : Writer := w.word 2 n.toNat

/-- Writes a word of four bytes. -/
def uint32 (w : Writer) (n : UInt32) : Writer := w.word 4 n.toNat

/-- Writes a signed word of eight bytes. -/
def int64 (w : Writer) (n : Int64) : Writer := w.word 8 n.toUInt64.toNat

/-- Writes the 64 bits of a float, also those of a NaN as they are. -/
def float64 (w : Writer) (bits : UInt64) : Writer := w.word 8 bits.toNat

/-- Writes how many items follow. -/
def count (w : Writer) (n : Nat) : Writer := w.uint32 (UInt32.ofNat n)

/-- Writes what another writer wrote. Its words stay aligned because no word is longer than eight
bytes. -/
def append (w other : Writer) : Writer := (w.align 8).raw other.toList

@[simp] theorem toList_empty : empty.toList = [] := rfl

@[simp] theorem toList_raw (w : Writer) (bs : List UInt8) :
    (w.raw bs).toList = w.toList ++ bs := by
  simp [raw, toList]

/-- How many bytes were written is how many there are. -/
theorem size_eq_length (w : Writer) : w.size = w.toList.length := by simp [size, toList]

@[simp] theorem toList_align (w : Writer) (alignment : Nat) :
    (w.align alignment).toList = w.toList ++ List.replicate (padding alignment w.size) 0 := by
  simp [align]

@[simp] theorem toList_word (w : Writer) (width n : Nat) :
    (w.word width n).toList =
      w.toList ++ List.replicate (padding width w.size) 0 ++ littleEndian width n := by
  simp [word]

end Writer

end TickScript.Bytes
