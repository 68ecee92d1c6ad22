import TickScript.Proofs.Text.Sizes

/-!
# How long written floats are

A float is written with at most 1402 digits and a few more characters (`size_floatText_le`). That is far
from what is ever written, and yet a bound for all floats. It rests on the size of their parts alone: a
value and its reciprocal are below `10 ^ 324`, so the exponent of each grid that is tried is small, and
the digits on it, or those of the exact value, are too.
-/

namespace TickScript

open String (utf8Len utf8Len_nil utf8Len_cons utf8Len_append)

/-- The significand of a float has at most 53 bits, and its exponent is bounded. -/
theorem Binary64.parts?_bounds {x : Float} {p : Parts} (h : parts? x = some p) :
    p.significand < 2 ^ 53 ∧ -1074 ≤ p.exponent ∧ p.exponent ≤ 971 := by
  have he : exponentField x ≤ 2047 := by
    unfold exponentField
    rw [UInt64.toNat_and]
    exact Nat.and_le_right
  have hf : fractionField x ≤ 2 ^ 52 - 1 := by
    unfold fractionField
    rw [UInt64.toNat_and]
    exact Nat.and_le_right
  unfold parts? at h
  dsimp only at h
  split at h
  · cases h
  · split at h
    · cases h
      dsimp only
      omega
    · cases h
      dsimp only [leadingBit]
      omega

namespace Decimal

/-! ## Small numerals -/

/-- A number below a power of ten has at most so many digits. -/
theorem digitCount_le {n k : Nat} (hk : 0 < k) (h : n < 10 ^ k) : digitCount n ≤ k :=
  length_digitText_le hk h

/-- A value that is not too large, with a denominator that is not either. -/
structure Rounding.Small (r : Rounding) : Prop where
  num : r.num < 10 ^ 324
  den : r.den < 10 ^ 324

/-- The parts of a float are small enough for the search of its digits. -/
theorem Rounding.small_ofParts {significand : Nat} {exponent : Int} {tight : Bool}
    (hs : significand < 2 ^ 53) (hlow : -1074 ≤ exponent) (hhigh : exponent ≤ 971) :
    (ofParts significand exponent tight).Small := by
  constructor
  · calc significand <<< exponent.toNat = significand * 2 ^ exponent.toNat := Nat.shiftLeft_eq _ _
      _ ≤ 2 ^ 53 * 2 ^ 971 :=
        Nat.mul_le_mul (Nat.le_of_lt hs) (Nat.pow_le_pow_right (by decide) (by omega))
      _ < 10 ^ 324 := by decide +kernel
  · calc 1 <<< (-exponent).toNat = 1 * 2 ^ (-exponent).toNat := Nat.shiftLeft_eq _ _
      _ ≤ 1 * 2 ^ 1074 := Nat.mul_le_mul (Nat.le_refl _) (Nat.pow_le_pow_right (by decide) (by omega))
      _ < 10 ^ 324 := by decide +kernel

/-- At most 1402 digits, and an exponent of at most four. -/
structure Numeral.Small (d : Numeral) : Prop where
  digits : d.digits < 10 ^ 1402
  low : -2000 ≤ d.exponent
  high : d.exponent ≤ 2000

namespace Rounding.Small

variable {r : Rounding}

/-- The search starts within some hundred decimal places. -/
theorem scale_bounds (h : r.Small) : -323 ≤ r.scale ∧ r.scale ≤ 324 := by
  have hnum : digitCount (r.num / r.den) ≤ 324 :=
    digitCount_le (by decide) (Nat.lt_of_le_of_lt (Nat.div_le_self _ _) h.num)
  have hden : digitCount (r.den / r.num) ≤ 324 :=
    digitCount_le (by decide) (Nat.lt_of_le_of_lt (Nat.div_le_self _ _) h.den)
  unfold scale
  split
  · omega
  · omega

/-- A neighbour on a grid is at most one grid unit above the value. -/
theorem onGrid? (h : r.Small) {exponent : Int} (hlow : -340 ≤ exponent) (hhigh : exponent ≤ 324)
    {d : Numeral} (hd : r.onGrid? exponent = some d) :
    d.digits < 10 ^ 1402 ∧ d.exponent = exponent := by
  have hquotient : r.num * 10 ^ (-exponent).toNat / (r.den * 10 ^ exponent.toNat) + 1 < 10 ^ 1402 := by
    have hexponent : (-exponent).toNat ≤ 340 := by omega
    have hpow := Nat.pow_le_pow_right (n := 10) (by decide) hexponent
    calc r.num * 10 ^ (-exponent).toNat / (r.den * 10 ^ exponent.toNat) + 1
        ≤ r.num * 10 ^ (-exponent).toNat + 1 := Nat.succ_le_succ (Nat.div_le_self _ _)
      _ ≤ 10 ^ 324 * 10 ^ 340 + 1 := Nat.add_le_add_right (Nat.mul_le_mul (Nat.le_of_lt h.num) hpow) 1
      _ < 10 ^ 1402 := by decide +kernel
  simp only [Rounding.onGrid?, Nat.pow_eq] at hd
  split at hd
  · cases hd
    split
    · exact ⟨Nat.lt_of_succ_lt hquotient, rfl⟩
    · exact ⟨hquotient, rfl⟩
  · cases hd
    exact ⟨Nat.lt_of_succ_lt hquotient, rfl⟩
  · cases hd
    exact ⟨hquotient, rfl⟩
  · cases hd

/-- The digits of the exact value are bounded. -/
theorem exactly (h : r.Small) :
    r.exactly.digits < 10 ^ 1402 ∧ -1077 ≤ r.exactly.exponent ∧ r.exactly.exponent ≤ 0 := by
  have hlog : r.den.log2 < 1077 := by
    by_cases hzero : r.den = 0
    · rw [hzero]
      decide
    · exact (Nat.log2_lt hzero).2 (h.den.trans (by decide +kernel))
  have hdigits : r.num * 5 ^ r.den.log2 < 10 ^ 1402 := by
    have hpow := Nat.pow_le_pow_right (n := 5) (by decide) (Nat.le_of_lt hlog)
    calc r.num * 5 ^ r.den.log2 ≤ 10 ^ 324 * 5 ^ 1077 := Nat.mul_le_mul (Nat.le_of_lt h.num) hpow
      _ < 10 ^ 1402 := by decide +kernel
  refine ⟨hdigits, ?_, ?_⟩
  · dsimp only [Rounding.exactly]
    omega
  · dsimp only [Rounding.exactly]
    omega

end Rounding.Small

/-- Trailing zeros go from the digits to the exponent. -/
theorem dropZeros_bounds (fuel : Nat) (d : Numeral) :
    (dropZeros fuel d).digits ≤ d.digits ∧ d.exponent ≤ (dropZeros fuel d).exponent ∧
      (dropZeros fuel d).exponent ≤ d.exponent + fuel := by
  induction fuel generalizing d with
  | zero => exact ⟨Nat.le_refl _, Int.le_refl _, by simp [dropZeros]⟩
  | succ fuel ih =>
    unfold dropZeros
    split
    · obtain ⟨hdigits, hlow, hhigh⟩ := ih ⟨d.digits / 10, d.exponent + 1⟩
      dsimp only at hdigits hlow hhigh
      have hdiv := Nat.div_le_self d.digits 10
      exact ⟨by omega, by omega, by omega⟩
    · exact ⟨Nat.le_refl _, Int.le_refl _, by omega⟩

/-- Shorter digits are bounded as well. -/
theorem Rounding.Small.shortest {r : Rounding} (h : r.Small) : r.shortest.Small := by
  -- every candidate has few digits, so that few zeros can move
  have hfound : ∀ d, d = ((List.range 17).findSome? fun (n : Nat) => r.onGrid? (r.scale - (n + 1))).getD
      r.exactly → d.digits < 10 ^ 1402 ∧ -1077 ≤ d.exponent ∧ d.exponent ≤ 324 := by
    intro d hd
    cases hs : (List.range 17).findSome? fun (n : Nat) => r.onGrid? (r.scale - (n + 1)) with
    | none =>
      rw [hs] at hd
      obtain ⟨hdigits, hlow, hhigh⟩ := h.exactly
      rw [hd]
      exact ⟨hdigits, hlow, hhigh.trans (by decide)⟩
    | some e =>
      rw [hs] at hd
      obtain ⟨n, hn, hgrid⟩ := List.exists_of_findSome?_eq_some hs
      have hlt := List.mem_range.1 hn
      obtain ⟨hlow, hhigh⟩ := h.scale_bounds
      obtain ⟨hdigits, hexponent⟩ := h.onGrid? (by omega) (by omega) hgrid
      rw [hd, Option.getD_some]
      exact ⟨hdigits, by omega, by omega⟩
  unfold Rounding.shortest
  dsimp only
  generalize hd : ((List.range 17).findSome? fun (n : Nat) => r.onGrid? (r.scale - (n + 1))).getD
    r.exactly = d at hfound ⊢
  obtain ⟨hdigits, hlow, hhigh⟩ := hfound d rfl
  obtain ⟨hdigits', hlow', hhigh'⟩ := dropZeros_bounds (digitCount d.digits) d
  have hcount : digitCount d.digits ≤ 1402 := digitCount_le (by decide) hdigits
  exact ⟨Nat.lt_of_le_of_lt hdigits' hdigits, by omega, by omega⟩

/-- The shortest digits of a float are bounded. -/
theorem small_of_shortest {x : Float} {d : Numeral} (h : shortest x = some d) : d.Small := by
  unfold shortest at h
  split at h
  · cases h
  · next p hp =>
    cases h
    obtain ⟨hs, hlow, hhigh⟩ := Binary64.parts?_bounds hp
    exact (Rounding.small_ofParts hs hlow hhigh).shortest

/-! ## Layout -/

theorem utf8Len_zeros (k : Nat) : utf8Len (List.replicate k '0') = k := by
  induction k with
  | zero => rfl
  | succ k ih =>
    rw [List.replicate_succ, utf8Len_cons, ih]
    rfl

/-- Zeros and a point are added to the digits. -/
theorem utf8Len_positional_le (digits : List Char) (whole : Int) :
    utf8Len (positional digits whole) ≤ utf8Len digits + whole.natAbs + 2 := by
  have hpoint : '.'.utf8Size = 1 := rfl
  have hzero : '0'.utf8Size = 1 := rfl
  unfold positional
  split
  · simp only [utf8Len_cons, utf8Len_append, utf8Len_zeros]
    omega
  · split
    · simp only [utf8Len_cons, utf8Len_append, utf8Len_zeros, utf8Len_nil]
      omega
    · have hsplit := congrArg utf8Len (List.take_append_drop whole.toNat digits)
      rw [utf8Len_append] at hsplit
      rw [utf8Len_append, utf8Len_cons]
      omega

/-- The exponent form takes the digits, the exponent and two more characters at most. -/
theorem utf8Len_scientific_le (digits : List Char) (exponent : Int) :
    utf8Len (scientific digits exponent) ≤ utf8Len digits + (intText exponent).utf8ByteSize + 2 := by
  have hpoint : '.'.utf8Size = 1 := rfl
  have he : 'e'.utf8Size = 1 := rfl
  unfold scientific
  dsimp only
  rw [utf8Len_append, utf8Len_cons, String.utf8Len_toList]
  split
  · simp only [utf8Len_cons]
    omega
  · omega

/-- A bounded numeral has a bounded text. -/
theorem Numeral.Small.text {d : Numeral} (h : d.Small) : utf8Len d.text ≤ 1500 := by
  have hcount : (digitText d.digits).length ≤ 1402 := length_digitText_le (by decide) h.digits
  have hdigits := utf8Len_digitText d.digits
  obtain ⟨-, hlow, hhigh⟩ := h
  unfold Numeral.text
  dsimp only
  generalize hleading : d.exponent + (digitText d.digits).length - 1 = leading
  split
  · have hpositional := utf8Len_positional_le (digitText d.digits) (leading + 1)
    omega
  · have hscientific := utf8Len_scientific_le (digitText d.digits) leading
    have hexponent : (intText leading).utf8ByteSize ≤ 4 + 1 := size_intText_le (by decide) (by omega)
    omega

/-- A sign takes one character. -/
theorem size_signed_le {size : List Char} (h : utf8Len size ≤ 1500) (negative : Bool) :
    (String.ofList (if negative then '-' :: size else size)).utf8ByteSize ≤ 1501 := by
  have hsign : '-'.utf8Size = 1 := rfl
  rw [String.utf8ByteSize_ofList]
  split
  · rw [utf8Len_cons]
    omega
  · omega

/-- **A float is short in writing**, whichever it is. -/
theorem size_floatText_le (x : Float) : (floatText x).utf8ByteSize ≤ 1501 := by
  unfold floatText
  split
  · decide
  · refine size_signed_le ?_ _
    split
    · decide
    · split
      · decide
      · split
        · next d hd => exact (small_of_shortest hd).text
        · decide

end Decimal

end TickScript
