import TickScript.Bytes.LittleEndian

/-!
# Reading aligned words

A reader stands at an offset with the bytes from there on. Skipping to an alignment may go past the
end; then there is nothing left to read, and the offset says how far the reader wanted to go.
-/

namespace TickScript.Bytes

/-- The first bytes of a list and the others, if there are that many. -/
def split? {α : Type} : Nat → List α → Option (List α × List α)
  | 0, l => some ([], l)
  | _ + 1, [] => none
  | n + 1, a :: l => (split? n l).map fun (first, others) => (a :: first, others)

/-- What was split off comes first, and is as long as asked for. -/
theorem append_of_split? {α : Type} {n : Nat} {l first others : List α}
    (h : split? n l = some (first, others)) : l = first ++ others ∧ first.length = n := by
  induction n generalizing l first with
  | zero => simp_all [split?]
  | succ n ih =>
    cases l with
    | nil => simp [split?] at h
    | cons a l =>
      obtain ⟨⟨first', others'⟩, h', e⟩ := Option.map_eq_some_iff.1 h
      simp only [Prod.mk.injEq] at e
      obtain ⟨rfl, rfl⟩ := e
      obtain ⟨rfl, rfl⟩ := ih h'
      exact ⟨rfl, rfl⟩

/-- Whether a list has fewer than `n` items. It looks no further than that many. -/
def isShorter {α : Type} : List α → Nat → Bool
  | _, 0 => false
  | [], _ + 1 => true
  | _ :: l, n + 1 => isShorter l n

@[simp] theorem isShorter_eq_decide {α : Type} (l : List α) (n : Nat) :
    isShorter l n = decide (l.length < n) := by
  induction l generalizing n with
  | nil => cases n <;> simp [isShorter]
  | cons a l ih => cases n <;> simp [isShorter, ih]

/-- An offset and the bytes from there on. -/
structure Reader where
  offset : Nat
  rest : List UInt8
deriving Repr, DecidableEq

namespace Reader

/-- A reader at the first of the bytes. -/
def ofBytes (bytes : List UInt8) : Reader := ⟨0, bytes⟩

/-- How many bytes are left. -/
def left (r : Reader) : Nat := r.rest.length

/-- Skips to a multiple of an alignment. -/
def align (r : Reader) (alignment : Nat) : Reader :=
  ⟨r.offset + padding alignment r.offset, r.rest.drop (padding alignment r.offset)⟩

/-- Skipping to an alignment leaves no more than there was. -/
theorem left_align_le (r : Reader) (alignment : Nat) : (r.align alignment).left ≤ r.left := by
  simp [align, left]

/-- Reads a word of the given size at the next multiple of it. A word that is cut off is reported by
the offset where it should begin. -/
def word (r : Reader) (width : Nat) : Except Nat (Nat × Reader) :=
  match split? width (r.align width).rest with
  | some (bytes, rest) => .ok (number bytes, ⟨(r.align width).offset + width, rest⟩)
  | none => .error (r.align width).offset

/-- Reading a word takes at least its bytes off what is left. -/
theorem left_of_word {r r' : Reader} {width n : Nat} (h : r.word width = .ok (n, r')) :
    r'.left + width ≤ r.left := by
  unfold word at h
  split at h
  next bytes rest hs =>
    cases h
    obtain ⟨ha, hl⟩ := append_of_split? hs
    have hle := left_align_le r width
    simp only [left, ha, List.length_append] at hle ⊢
    omega
  next => cases h

end Reader

/-- The words that a reader knows. -/
inductive WordKind where
  | uint8
  | uint16
  | uint32
  | int64
  | float64
deriving Repr, DecidableEq

/-- A word as it was read, a float by its bits. -/
inductive Word where
  | whole (n : Int)
  | float (bits : UInt64)
deriving Repr, DecidableEq

/-- The size of a word. -/
def WordKind.width : WordKind → Nat
  | .uint8 => 1
  | .uint16 => 2
  | .uint32 => 4
  | .int64 => 8
  | .float64 => 8

/-- The word whose bytes stand for a number. -/
def WordKind.ofNumber (k : WordKind) (n : Nat) : Word :=
  match k with
  | .uint8 | .uint16 | .uint32 => .whole n
  | .int64 => .whole n.toUInt64.toInt64.toInt
  | .float64 => .float n.toUInt64

/-- Reads a word of a kind. When the word is cut off the reader stays where it should begin. -/
def Reader.next (r : Reader) (k : WordKind) : Except Nat Word × Reader :=
  match r.word k.width with
  | .ok (n, r') => (.ok (k.ofNumber n), r')
  | .error offset => (.error offset, r.align k.width)

end TickScript.Bytes
