import TickScript.Decimal.Notation
import TickScript.Text.Quoted
import Mathlib.Algebra.Order.BigOperators.Group.List
import Mathlib.Data.String.Basic
import Mathlib.Tactic.IntervalCases

/-!
# How long written values are

The size of a text is counted in bytes. Quoting makes a text at most six times as long, for a character
of one byte may become an escape of six. An integer takes at most twenty bytes. For a float the bound is
a rough one: it is written with the digits of a decimal that is not larger than the number itself, in
whole units of the smallest place that is tried.
-/

namespace TickScript

open String (utf8Len utf8Len_nil utf8Len_cons utf8Len_append)

/-! ## Lists of texts -/

/-- The bytes of all texts of a list together. -/
def textSizes (texts : List String) : Nat := (texts.map String.utf8ByteSize).sum

theorem textSizes_cons (s : String) (texts : List String) :
    textSizes (s :: texts) = s.utf8ByteSize + textSizes texts := by
  rw [textSizes, List.map_cons, List.sum_cons, textSizes]

/-- Equal texts have equal shares of what they take together. -/
theorem textSizes_replicate (n : Nat) (s : String) :
    textSizes (List.replicate n s) = n * s.utf8ByteSize := by
  rw [textSizes, List.map_replicate, List.sum_replicate_nat]

/-- None of some texts is longer than all together. -/
theorem size_le_textSizes {s : String} {texts : List String} (h : s ∈ texts) :
    s.utf8ByteSize ≤ textSizes texts :=
  List.le_sum_of_mem (List.mem_map_of_mem h)

/-- Texts one after the other, with a separator between them. -/
theorem size_intercalate (sep : String) (texts : List String) :
    (sep.intercalate texts).utf8ByteSize =
      textSizes texts + (texts.length - 1) * sep.utf8ByteSize := by
  induction texts with
  | nil => rw [String.intercalate_nil]; simp [textSizes]
  | cons s texts ih =>
    cases texts with
    | nil => rw [String.intercalate_singleton]; simp [textSizes]
    | cons t texts =>
      rw [String.intercalate_cons_cons, String.utf8ByteSize_append, String.utf8ByteSize_append, ih,
        textSizes_cons s]
      simp only [List.length_cons, Nat.add_sub_cancel]
      rw [Nat.add_one_mul]
      omega

/-! ## Digits -/

theorem utf8Size_digitChar (d : Nat) : (Nat.digitChar d).utf8Size = 1 := by
  by_cases hd : d < 16
  · interval_cases d <;> rfl
  · have hother : Nat.digitChar d = '*' := by
      unfold Nat.digitChar
      simp (disch := omega) only [if_neg]
    rw [hother]
    rfl

/-- Every digit is one byte. -/
theorem utf8Len_toDigits {b : Nat} (hb : 1 < b) (n : Nat) :
    utf8Len (Nat.toDigits b n) = (Nat.toDigits b n).length := by
  induction n using Nat.strongRecOn with
  | ind n ih =>
    by_cases hn : n < b
    · rw [Nat.toDigits_of_lt_base hn, utf8Len_cons, utf8Len_nil, utf8Size_digitChar]
      rfl
    · have hle := Nat.le_of_not_lt hn
      rw [Nat.toDigits_of_base_le hb hle, utf8Len_append, utf8Len_cons, utf8Len_nil, utf8Size_digitChar,
        ih (n / b) (Nat.div_lt_self (by omega) hb), List.length_append]
      rfl

namespace Decimal

/-- A number below a power of ten has at most as many digits as the exponent says. -/
theorem length_digitText_le {n k : Nat} (hk : 0 < k) (h : n < 10 ^ k) : (digitText n).length ≤ k :=
  (Nat.length_toDigits_le_iff (by decide) hk).2 h

theorem utf8Len_digitText (n : Nat) : utf8Len (digitText n) = (digitText n).length :=
  utf8Len_toDigits (by decide) n

/-- A whole number takes a byte for each digit and one for its sign. -/
theorem size_intText_le {n : Int} {k : Nat} (hk : 0 < k) (h : n.natAbs < 10 ^ k) :
    (intText n).utf8ByteSize ≤ k + 1 := by
  cases n with
  | ofNat i =>
    have hlength : (digitText i).length ≤ k := length_digitText_le hk h
    rw [intText, String.utf8ByteSize_ofList, utf8Len_digitText]
    omega
  | negSucc i =>
    have hlength : (digitText (i + 1)).length ≤ k := length_digitText_le hk h
    rw [intText, String.utf8ByteSize_ofList, utf8Len_cons, utf8Len_digitText]
    have hsign : '-'.utf8Size = 1 := rfl
    omega

/-- An integer of 64 bits has at most nineteen digits. -/
theorem size_int64Text_le (n : Int64) : (intText n.toInt).utf8ByteSize ≤ 20 := by
  refine size_intText_le (by decide) ?_
  have hlow := n.le_toInt
  have hhigh := n.toInt_lt
  omega

end Decimal

/-! ## Quoted text -/

namespace Text

theorem size_escapeLetter {c l : Char} (h : escapeLetter? c = some l) : l.utf8Size = 1 := by
  unfold escapeLetter? at h
  split at h <;> cases h <;> rfl

/-- A character in hexadecimal digits, which are fewer where the character is shorter. -/
theorem length_hex_le (c : Char) : (Nat.toDigits 16 c.toNat).length + 4 ≤ 6 * c.utf8Size := by
  have hdigits {k : Nat} (hk : 0 < k) (h : c.toNat < 16 ^ k) : (Nat.toDigits 16 c.toNat).length ≤ k :=
    (Nat.length_toDigits_le_iff (by decide) hk).2 h
  by_cases hone : c.utf8Size = 1
  · have hval := Char.utf8Size_eq_one_iff.1 hone
    have hlength := hdigits (k := 2) (by decide) (Nat.lt_of_le_of_lt hval (by decide))
    omega
  · have hpos := c.utf8Size_pos
    have hvalid : c.toNat < 16 ^ 6 := by
      rcases c.valid with h | ⟨-, h⟩
      · exact Nat.lt_trans h (by decide)
      · exact Nat.lt_trans h (by decide)
    have hlength := hdigits (k := 6) (by decide) hvalid
    omega

/-- Quoting a character makes it at most six times as long. -/
theorem size_quoteChar_le (c : Char) : utf8Len (quoteChar c) ≤ 6 * c.utf8Size := by
  have hpos := c.utf8Size_pos
  unfold quoteChar
  split
  · next l hl =>
    have hslash : '\\'.utf8Size = 1 := rfl
    rw [utf8Len_cons, utf8Len_cons, utf8Len_nil, size_escapeLetter hl, hslash]
    omega
  · split
    · rw [utf8Len_cons, utf8Len_nil]
      omega
    · have hhex := length_hex_le c
      simp only [utf8Len_cons, utf8Len_append, utf8Len_nil, utf8Len_toDigits (b := 16) (by decide)]
      have hslash : '\\'.utf8Size = 1 := rfl
      have hu : 'u'.utf8Size = 1 := rfl
      have hopen : '\x7b'.utf8Size = 1 := rfl
      have hclose : '\x7d'.utf8Size = 1 := rfl
      omega

/-- A quoted text is at most six times as long, and has its quotes. -/
theorem size_quoted_le (s : String) : (quoted s).utf8ByteSize ≤ 6 * s.utf8ByteSize + 2 := by
  have hchars (cs : List Char) : utf8Len (cs.flatMap quoteChar) ≤ 6 * utf8Len cs := by
    induction cs with
    | nil => exact Nat.le_refl _
    | cons c cs ih =>
      have hc := size_quoteChar_le c
      rw [List.flatMap_cons, utf8Len_append, utf8Len_cons]
      omega
  have hquote : '"'.utf8Size = 1 := rfl
  have hs := hchars s.toList
  rw [String.utf8Len_toList] at hs
  rw [quoted, String.utf8ByteSize_ofList, utf8Len_cons, utf8Len_append, utf8Len_cons, utf8Len_nil]
  omega

end Text

end TickScript
