import TickScript.Text.Utf16

/-!
# Text survives its units

A character is no surrogate, so a unit that stands for a character by itself is never taken for half
of a pair, and a pair is put together to the character it was split from. Reading the units of a text
therefore gives back the text, and units that are read as a text are the units of that text.
-/

namespace TickScript.Text

/-- A character lies below the surrogates or above them, and below the end of the planes. -/
private theorem char_range (c : Char) :
    c.toNat < 0xD800 ∨ 0xE000 ≤ c.toNat ∧ c.toNat < 0x110000 := by
  have h := c.valid
  unfold UInt32.isValidChar Nat.isValidChar at h
  change c.val.toNat < 0xD800 ∨ 0xE000 ≤ c.val.toNat ∧ c.val.toNat < 0x110000
  omega

private theorem isHighSurrogate_iff {u : UInt16} :
    isHighSurrogate u = true ↔ 0xD800 ≤ u.toNat ∧ u.toNat ≤ 0xDBFF := by
  simp only [isHighSurrogate, Bool.and_eq_true, decide_eq_true_eq, UInt16.le_iff_toNat_le]
  exact Iff.rfl

private theorem isLowSurrogate_iff {u : UInt16} :
    isLowSurrogate u = true ↔ 0xDC00 ≤ u.toNat ∧ u.toNat ≤ 0xDFFF := by
  simp only [isLowSurrogate, Bool.and_eq_true, decide_eq_true_eq, UInt16.le_iff_toNat_le]
  exact Iff.rfl

private theorem not_isHighSurrogate {u : UInt16} (h : u.toNat < 0xD800 ∨ 0xDC00 ≤ u.toNat) :
    isHighSurrogate u = false := by
  rw [Bool.eq_false_iff, Ne, isHighSurrogate_iff]
  omega

private theorem not_isLowSurrogate {u : UInt16} (h : u.toNat < 0xDC00 ∨ 0xE000 ≤ u.toNat) :
    isLowSurrogate u = false := by
  rw [Bool.eq_false_iff, Ne, isLowSurrogate_iff]
  omega

private theorem isHighSurrogate_of_range {u : UInt16} (h : 0xD800 ≤ u.toNat) (h' : u.toNat ≤ 0xDBFF) :
    isHighSurrogate u = true :=
  isHighSurrogate_iff.2 ⟨h, h'⟩

private theorem isLowSurrogate_of_range {u : UInt16} (h : 0xDC00 ≤ u.toNat) (h' : u.toNat ≤ 0xDFFF) :
    isLowSurrogate u = true :=
  isLowSurrogate_iff.2 ⟨h, h'⟩

/-- The units of a character are read as that character, whatever follows them. -/
theorem unitChars?_charUnits (c : Char) (rest : List UInt16) :
    unitChars? (charUnits c ++ rest) = (unitChars? rest).map (c :: ·) := by
  have hc := char_range c
  unfold charUnits
  split
  next h =>
    have hu : (UInt16.ofNat c.toNat).toNat = c.toNat := UInt16.toNat_ofNat_of_lt' h
    rw [List.singleton_append, unitChars?.eq_def]
    simp only [not_isHighSurrogate (u := UInt16.ofNat c.toNat) (by omega),
      not_isLowSurrogate (u := UInt16.ofNat c.toNat) (by omega), hu, Char.ofNat_toNat,
      Bool.false_eq_true, if_false]
  next h =>
    dsimp only
    -- Above the first plane: ten bits of the number in each half of the pair.
    have hhigh : (UInt16.ofNat (0xD800 + (c.toNat - 0x10000) / 0x400)).toNat =
        0xD800 + (c.toNat - 0x10000) / 0x400 :=
      UInt16.toNat_ofNat_of_lt' (by change _ < 65536; omega)
    have hlow : (UInt16.ofNat (0xDC00 + (c.toNat - 0x10000) % 0x400)).toNat =
        0xDC00 + (c.toNat - 0x10000) % 0x400 :=
      UInt16.toNat_ofNat_of_lt' (by change _ < 65536; omega)
    have hpair : 0x10000 + (0xD800 + (c.toNat - 0x10000) / 0x400 - 0xD800) * 0x400 +
        (0xDC00 + (c.toNat - 0x10000) % 0x400 - 0xDC00) = c.toNat := by
      omega
    rw [List.cons_append, List.singleton_append, unitChars?.eq_def]
    simp only [isHighSurrogate_of_range (u := UInt16.ofNat (0xD800 + (c.toNat - 0x10000) / 0x400))
        (by omega) (by omega),
      isLowSurrogate_of_range (u := UInt16.ofNat (0xDC00 + (c.toNat - 0x10000) % 0x400))
        (by omega) (by omega),
      if_true, pairChar, hhigh, hlow, hpair, Char.ofNat_toNat]

/-- The units of a text are read as that text. -/
theorem ofUnits?_toUnits (s : String) : ofUnits? (toUnits s) = some s := by
  have h (cs : List Char) : unitChars? (cs.flatMap charUnits) = some cs := by
    induction cs with
    | nil => rfl
    | cons c cs ih => rw [List.flatMap_cons, unitChars?_charUnits, ih, Option.map_some]
  rw [ofUnits?, toUnits, h, Option.map_some, String.ofList_toList]

private theorem toNat_ofNat {n : Nat} (h : n.isValidChar) : (Char.ofNat n).toNat = n := by
  rw [Char.ofNat, dif_pos h]
  rfl

/-- A unit that is no surrogate is the unit of its character. -/
private theorem charUnits_ofNat {u : UInt16} (hhigh : ¬ isHighSurrogate u = true)
    (hlow : ¬ isLowSurrogate u = true) : charUnits (Char.ofNat u.toNat) = [u] := by
  rw [isHighSurrogate_iff] at hhigh
  rw [isLowSurrogate_iff] at hlow
  have hu := u.toNat_lt
  have hnat : (Char.ofNat u.toNat).toNat = u.toNat := by
    refine toNat_ofNat ?_
    unfold Nat.isValidChar
    omega
  rw [charUnits, hnat, if_pos hu, UInt16.ofNat_toNat]

/-- A pair of surrogates are the units of its character. -/
private theorem charUnits_pairChar {high low : UInt16} (hhigh : isHighSurrogate high = true)
    (hlow : isLowSurrogate low = true) : charUnits (pairChar high low) = [high, low] := by
  rw [isHighSurrogate_iff] at hhigh
  rw [isLowSurrogate_iff] at hlow
  have hnat : (pairChar high low).toNat =
      0x10000 + (high.toNat - 0xD800) * 0x400 + (low.toNat - 0xDC00) := by
    refine toNat_ofNat ?_
    unfold Nat.isValidChar
    omega
  have hfirst : 0xD800 + ((pairChar high low).toNat - 0x10000) / 0x400 = high.toNat := by omega
  have hsecond : 0xDC00 + ((pairChar high low).toNat - 0x10000) % 0x400 = low.toNat := by omega
  rw [charUnits, if_neg (by omega)]
  dsimp only
  rw [hfirst, hsecond, UInt16.ofNat_toNat, UInt16.ofNat_toNat]

/-- Units that are read as a text are the units of that text. -/
theorem toUnits_of_ofUnits? {units : List UInt16} {s : String} (h : ofUnits? units = some s) :
    toUnits s = units := by
  obtain ⟨cs, hcs, rfl⟩ := Option.map_eq_some_iff.1 h
  rw [toUnits, String.toList_ofList]
  clear h
  induction units using unitChars?.induct generalizing cs with
  | case1 =>
    cases hcs
    rfl
  | case2 u hhigh low rest hlow ih =>
    rw [unitChars?, if_pos hhigh, if_pos hlow] at hcs
    obtain ⟨cs', hcs', rfl⟩ := Option.map_eq_some_iff.1 hcs
    rw [List.flatMap_cons, charUnits_pairChar hhigh hlow, ih cs' hcs']
    rfl
  | case3 u hhigh low rest hlow =>
    rw [unitChars?, if_pos hhigh, if_neg hlow] at hcs
    cases hcs
  | case4 u hhigh =>
    rw [unitChars?, if_pos hhigh] at hcs
    cases hcs
  | case5 u rest hhigh hlow =>
    rw [unitChars?.eq_def] at hcs
    simp only [if_neg hhigh, if_pos hlow] at hcs
    cases hcs
  | case6 u rest hhigh hlow ih =>
    rw [unitChars?.eq_def] at hcs
    simp only [if_neg hhigh, if_neg hlow] at hcs
    obtain ⟨cs', hcs', rfl⟩ := Option.map_eq_some_iff.1 hcs
    rw [List.flatMap_cons, charUnits_ofNat hhigh hlow, ih cs' hcs']
    rfl

end TickScript.Text
