import Mathlib
import TickScript.Binary64

/-!
# The float nearest to an integer

An integer of 64 bits has up to eleven bits more than the significand of a float. What does not fit is
rounded away, to the even neighbour in the middle, so that every integer has a float whose value is the
integer `nearest n`. Floats of integers compare as these values do (`ofInt64_le_iff`, `ofInt64_beq_iff`).

Rounding keeps the order of integers and may take two of them to one value. Integers of up to `2 ^ 53` are
their own value, and no integer is moved by more than 512.

The float operations are opened here as what they do to unpacked numbers, a sign and `m * 2 ^ e` with
`2 ^ 52 ≤ m < 2 ^ 53` (`Stands`): every number of an integer is normal, or zero.
-/

namespace TickScript.Binary64

open Float.Model Float.Model.UnpackedFloat

/-! ## Rounding to even -/

/-- `m / 2 ^ k` as the nearest integer, of two the even one. -/
def halfEven (m k : Nat) : Nat :=
  if 2 * (m % 2 ^ k) < 2 ^ k then m / 2 ^ k
  else if 2 * (m % 2 ^ k) = 2 ^ k then m / 2 ^ k + m / 2 ^ k % 2
  else m / 2 ^ k + 1

theorem halfEven_zero (m : Nat) : halfEven m 0 = m := by
  simp [halfEven, Nat.mod_one]

/-- A multiple of the unit is not rounded. -/
theorem halfEven_mul_two_pow (q k : Nat) : halfEven (q * 2 ^ k) k = q := by
  have hpos : 0 < 2 ^ k := Nat.two_pow_pos k
  rw [halfEven, Nat.mul_mod_left, Nat.mul_div_cancel q hpos, if_pos (by omega)]

/-- Only the bits that are cut off and the last one that stays decide how a number is rounded. -/
theorem halfEven_shift (m k j : Nat) : halfEven (m * 2 ^ j) (k + j) = halfEven m k := by
  have hpos : 0 < 2 ^ j := Nat.two_pow_pos j
  have hdiv : m * 2 ^ j / 2 ^ (k + j) = m / 2 ^ k := by
    rw [Nat.pow_add, Nat.mul_div_mul_right m (2 ^ k) hpos]
  have hmod : m * 2 ^ j % 2 ^ (k + j) = m % 2 ^ k * 2 ^ j := by
    rw [Nat.pow_add, Nat.mul_mod_mul_right]
  have hlt : 2 * (m % 2 ^ k * 2 ^ j) < 2 ^ (k + j) ↔ 2 * (m % 2 ^ k) < 2 ^ k := by
    rw [Nat.pow_add, ← Nat.mul_assoc, Nat.mul_lt_mul_right hpos]
  have heq : 2 * (m % 2 ^ k * 2 ^ j) = 2 ^ (k + j) ↔ 2 * (m % 2 ^ k) = 2 ^ k := by
    rw [Nat.pow_add, ← Nat.mul_assoc, Nat.mul_left_inj (Nat.ne_of_gt hpos)]
  simp only [halfEven, hdiv, hmod, hlt, heq]

/-- A number is moved by half of the last place that is kept, at most. -/
theorem halfEven_error (m k : Nat) :
    2 * (halfEven m k * 2 ^ k) ≤ 2 * m + 2 ^ k ∧ 2 * m ≤ 2 * (halfEven m k * 2 ^ k) + 2 ^ k := by
  have hm : 2 ^ k * (m / 2 ^ k) + m % 2 ^ k = m := Nat.div_add_mod m (2 ^ k)
  have hr : m % 2 ^ k < 2 ^ k := Nat.mod_lt m (Nat.two_pow_pos k)
  have hq : m / 2 ^ k % 2 = 0 ∨ m / 2 ^ k % 2 = 1 := Nat.mod_two_eq_zero_or_one _
  rw [Nat.mul_comm] at hm
  unfold halfEven
  split
  · omega
  · split
    · rw [Nat.add_mul]
      rcases hq with hq | hq <;> rw [hq] <;> omega
    · rw [Nat.add_mul]
      omega

/-- Rounding keeps numbers in their order. -/
theorem halfEven_mono {m m' : Nat} (k : Nat) (h : m ≤ m') : halfEven m k ≤ halfEven m' k := by
  have hdiv : m / 2 ^ k ≤ m' / 2 ^ k := Nat.div_le_div_right h
  have hm : 2 ^ k * (m / 2 ^ k) + m % 2 ^ k = m := Nat.div_add_mod m (2 ^ k)
  have hm' : 2 ^ k * (m' / 2 ^ k) + m' % 2 ^ k = m' := Nat.div_add_mod m' (2 ^ k)
  unfold halfEven
  rcases Nat.eq_or_lt_of_le hdiv with heq | hlt
  · -- the same quotient, so the order is that of the remainders
    rw [heq] at hm ⊢
    have hmod : m % 2 ^ k ≤ m' % 2 ^ k := by omega
    split <;> split <;> (try split) <;> (try split) <;> omega
  · split <;> split <;> (try split) <;> (try split) <;> omega

/-! ## The value of an integer's float -/

/-- The value of the float nearest to a number: its first 53 bits are kept. -/
def nearestNat (m : Nat) : Nat := halfEven m (m.log2 - 52) * 2 ^ (m.log2 - 52)

/-- The value of the float nearest to an integer. -/
def nearest (n : Int) : Int := n.sign * nearestNat n.natAbs

/-- A number of at most 53 bits is a float. -/
theorem nearestNat_of_lt {m : Nat} (h : m < 2 ^ 53) : nearestNat m = m := by
  have hlog : m.log2 - 52 = 0 := by
    rcases Nat.eq_zero_or_pos m with rfl | hpos
    · rfl
    · have := (Nat.log2_lt (Nat.ne_of_gt hpos)).2 h
      omega
  rw [nearestNat, hlog, halfEven_zero, Nat.pow_zero, Nat.mul_one]

/-- A power of two is a float. -/
theorem nearestNat_two_pow (j : Nat) : nearestNat (2 ^ j) = 2 ^ j := by
  have hsplit : 2 ^ j = 2 ^ (j - (j - 52)) * 2 ^ (j - 52) := by
    rw [← Nat.pow_add]
    congr 1
    omega
  rw [nearestNat, Nat.log2_two_pow]
  conv_lhs => rw [hsplit]
  rw [halfEven_mul_two_pow, ← hsplit]

/-- Rounding does not go below the power of two beneath the number. -/
theorem two_pow_log2_le_nearestNat {m : Nat} (hm : 0 < m) : 2 ^ m.log2 ≤ nearestNat m := by
  have hlog : m.log2 = m.log2 - (m.log2 - 52) + (m.log2 - 52) := by omega
  have hle : 2 ^ (m.log2 - (m.log2 - 52)) * 2 ^ (m.log2 - 52) ≤ m := by
    rw [← Nat.pow_add, ← hlog]
    exact Nat.log2_self_le (Nat.ne_of_gt hm)
  have hround := halfEven_mono (m.log2 - 52) hle
  rw [halfEven_mul_two_pow] at hround
  calc 2 ^ m.log2 = 2 ^ (m.log2 - (m.log2 - 52)) * 2 ^ (m.log2 - 52) := by rw [← Nat.pow_add, ← hlog]
    _ ≤ nearestNat m := Nat.mul_le_mul_right _ hround

/-- Nor does it go beyond the power of two above. -/
theorem nearestNat_le_two_pow (m : Nat) : nearestNat m ≤ 2 ^ (m.log2 + 1) := by
  have hlog : m.log2 + 1 = m.log2 + 1 - (m.log2 - 52) + (m.log2 - 52) := by omega
  have hle : m ≤ 2 ^ (m.log2 + 1 - (m.log2 - 52)) * 2 ^ (m.log2 - 52) := by
    rw [← Nat.pow_add, ← hlog]
    exact Nat.le_of_lt Nat.lt_log2_self
  have hround := halfEven_mono (m.log2 - 52) hle
  rw [halfEven_mul_two_pow] at hround
  calc nearestNat m ≤ 2 ^ (m.log2 + 1 - (m.log2 - 52)) * 2 ^ (m.log2 - 52) :=
        Nat.mul_le_mul_right _ hround
    _ = 2 ^ (m.log2 + 1) := by rw [← Nat.pow_add, ← hlog]

/-- No positive number is rounded to zero. -/
theorem nearestNat_pos {m : Nat} (hm : 0 < m) : 0 < nearestNat m :=
  Nat.lt_of_lt_of_le (Nat.two_pow_pos _) (two_pow_log2_le_nearestNat hm)

/-- The nearest floats of numbers are in the order of the numbers, or equal. -/
theorem nearestNat_mono {m m' : Nat} (h : m ≤ m') : nearestNat m ≤ nearestNat m' := by
  rcases Nat.eq_zero_or_pos m with rfl | hm
  · exact Nat.zero_le _
  have hlog : m.log2 ≤ m'.log2 :=
    (Nat.le_log2 (by omega)).2 (Nat.le_trans (Nat.log2_self_le (Nat.ne_of_gt hm)) h)
  rcases Nat.eq_or_lt_of_le hlog with heq | hlt
  · rw [nearestNat, nearestNat, heq]
    exact Nat.mul_le_mul_right _ (halfEven_mono _ h)
  · -- a power of two lies between the two values
    calc nearestNat m ≤ 2 ^ (m.log2 + 1) := nearestNat_le_two_pow m
      _ ≤ 2 ^ m'.log2 := Nat.pow_le_pow_right (by decide) hlt
      _ ≤ nearestNat m' := two_pow_log2_le_nearestNat (Nat.lt_of_lt_of_le hm h)

/-- In the range of 64 bits the nearest float is at most 512 away. -/
theorem nearestNat_error {m : Nat} (h : m ≤ 2 ^ 63) :
    nearestNat m ≤ m + 512 ∧ m ≤ nearestNat m + 512 := by
  rcases Nat.eq_or_lt_of_le h with rfl | hlt
  · rw [nearestNat_two_pow]
    omega
  rcases Nat.eq_zero_or_pos m with rfl | hm
  · decide
  have hlog : m.log2 < 63 := (Nat.log2_lt (Nat.ne_of_gt hm)).2 hlt
  have hplace : 2 ^ (m.log2 - 52) ≤ 2 ^ 10 := Nat.pow_le_pow_right (by decide) (by omega)
  have herror := halfEven_error m (m.log2 - 52)
  rw [nearestNat]
  omega

/-- Integers without a sign are rounded as the numbers that they are. -/
theorem nearest_natCast (m : Nat) : nearest m = nearestNat m := by
  rcases Nat.eq_zero_or_pos m with rfl | hm
  · rfl
  · rw [nearest, Int.sign_natCast_of_ne_zero (Nat.ne_of_gt hm), Int.natAbs_natCast, Int.one_mul]

/-- Rounding treats both signs alike. -/
theorem nearest_neg (n : Int) : nearest (-n) = -nearest n := by
  rw [nearest, nearest, Int.sign_neg, Int.natAbs_neg, Int.neg_mul]

/-- The nearest floats of integers are in the order of the integers, or equal. -/
theorem nearest_mono {a b : Int} (h : a ≤ b) : nearest a ≤ nearest b := by
  obtain ⟨m, rfl | rfl⟩ := a.eq_nat_or_neg <;> obtain ⟨m', rfl | rfl⟩ := b.eq_nat_or_neg
  · rw [nearest_natCast, nearest_natCast]
    exact Int.ofNat_le.2 (nearestNat_mono (Int.ofNat_le.1 h))
  · obtain ⟨rfl, rfl⟩ : m = 0 ∧ m' = 0 := by omega
    exact Int.le_refl _
  · rw [nearest_neg, nearest_natCast, nearest_natCast]
    omega
  · have hle : nearestNat m' ≤ nearestNat m := nearestNat_mono (by omega)
    rw [nearest_neg, nearest_neg, nearest_natCast, nearest_natCast]
    omega

/-- Integers of up to 53 bits have floats of their own, and so has `2 ^ 53`. -/
theorem nearest_of_le {n : Int} (h : n.natAbs ≤ 2 ^ 53) : nearest n = n := by
  have hnat : ∀ m : Nat, m ≤ 2 ^ 53 → nearest m = m := fun m hm => by
    rw [nearest_natCast]
    rcases Nat.eq_or_lt_of_le hm with rfl | hlt
    · rw [nearestNat_two_pow]
    · rw [nearestNat_of_lt hlt]
  obtain ⟨m, rfl | rfl⟩ := n.eq_nat_or_neg
  · exact hnat m (by omega)
  · rw [nearest_neg, hnat m (by omega)]

/-- A value of less than `2 ^ 53` is that of no other integer. -/
theorem nearest_of_nearest_lt {n : Int} (h : (nearest n).natAbs < 2 ^ 53) : nearest n = n := by
  have hend : nearest (2 ^ 53) = 2 ^ 53 := nearest_of_le (by decide)
  have hstart : nearest (-2 ^ 53) = -2 ^ 53 := nearest_of_le (by decide)
  refine nearest_of_le ?_
  by_contra hfar
  rcases Int.lt_or_le n 0 with hneg | hpos
  · have hmono := nearest_mono (a := n) (b := -2 ^ 53) (by omega)
    omega
  · have hmono := nearest_mono (a := 2 ^ 53) (b := n) (by omega)
    omega

/-- An integer of 64 bits is at most 512 away from its nearest float. -/
theorem nearest_error {n : Int} (h : n.natAbs ≤ 2 ^ 63) : (nearest n - n).natAbs ≤ 512 := by
  obtain ⟨m, rfl | rfl⟩ := n.eq_nat_or_neg
  · have herror := nearestNat_error (m := m) (by omega)
    rw [nearest_natCast]
    omega
  · have herror := nearestNat_error (m := m) (by omega)
    rw [nearest_neg, nearest_natCast]
    omega

/-! ## Unpacked numbers -/

/-- The number is zero or normal, and its value is an integer. -/
inductive Stands : UnpackedFloat → Int → Prop where
  | zero : Stands (.zero .positive) 0
  | finite (s : Sign) (m : Nat) (e : Int) (hm : 0 < m) (v : Int) (hlow : 2 ^ 52 ≤ m)
      (hhigh : m < 2 ^ 53) (hleast : -52 ≤ e) (hgreatest : e ≤ 971)
      (hvalue : s.apply (m * 2 ^ (e + 52).toNat : Nat) = v * 2 ^ 52) : Stands (.finite s m e hm) v

/-- Two comparisons agree if they agree on less and on greater. -/
theorem compare_congr {a b c d : Int} (hlt : a < b ↔ c < d) (hgt : b < a ↔ d < c) :
    compare a b = compare c d := by
  simp only [Int.compare_eq_ite_lt, hlt, hgt]

/-- Normal numbers compare by their exponents first. -/
theorem compare_magnitudes {m m' : Nat} {e e' : Int} (hlow : 2 ^ 52 ≤ m) (hhigh : m < 2 ^ 53)
    (hlow' : 2 ^ 52 ≤ m') (hhigh' : m' < 2 ^ 53) (he : -52 ≤ e) (he' : -52 ≤ e') :
    (compare e e').then (compare m m') =
      compare ((m * 2 ^ (e + 52).toNat : Nat) : Int) (m' * 2 ^ (e' + 52).toNat : Nat) := by
  have hstep : ∀ {m m' : Nat} {e e' : Int}, m < 2 ^ 53 → 2 ^ 52 ≤ m' → -52 ≤ e → e < e' →
      m * 2 ^ (e + 52).toNat < m' * 2 ^ (e' + 52).toNat := by
    intro m m' e e' hm hm' he hlt
    have hsucc : (e + 52).toNat + 1 ≤ (e' + 52).toNat := by omega
    calc m * 2 ^ (e + 52).toNat < 2 ^ 53 * 2 ^ (e + 52).toNat :=
          Nat.mul_lt_mul_of_pos_right hm (Nat.two_pow_pos _)
      _ = 2 ^ 52 * 2 ^ ((e + 52).toNat + 1) := by ring
      _ ≤ 2 ^ 52 * 2 ^ (e' + 52).toNat :=
          Nat.mul_le_mul_left _ (Nat.pow_le_pow_right (by decide) hsucc)
      _ ≤ m' * 2 ^ (e' + 52).toNat := Nat.mul_le_mul_right _ hm'
  rcases lt_trichotomy e e' with hlt | rfl | hlt
  · rw [Int.compare_eq_lt.2 hlt, Int.compare_eq_lt.2 (Int.ofNat_lt.2 (hstep hhigh hlow' he hlt))]
    rfl
  · have hpos : 0 < 2 ^ (e + 52).toNat := Nat.two_pow_pos _
    rw [Int.compare_eq_eq.2 rfl, Ordering.then]
    simp only [Nat.compare_eq_ite_lt, Int.compare_eq_ite_lt, Int.ofNat_lt, Nat.mul_lt_mul_right hpos]
  · rw [Int.compare_eq_gt.2 hlt, Int.compare_eq_gt.2 (Int.ofNat_lt.2 (hstep hhigh' hlow he' hlt))]
    rfl

/-- Unpacked numbers compare as their values do. -/
theorem Stands.compare_eq {u u' : UnpackedFloat} {v v' : Int} (h : Stands u v) (h' : Stands u' v') :
    u.compare u' = some (compare v v') := by
  have hpos : ∀ {m : Nat} (e : Int), 0 < m → 0 < m * 2 ^ (e + 52).toNat := fun e hm =>
    Nat.mul_pos hm (Nat.two_pow_pos _)
  -- Scaling both sides by the same power of two clears the exponents.
  rw [compare_congr (a := v) (b := v') (c := v * 2 ^ 52) (d := v' * 2 ^ 52) (by omega) (by omega)]
  cases h with
  | zero =>
    cases h' with
    | zero => rfl
    | finite s' m' e' hm' _ _ _ _ _ hvalue' =>
      have := hpos e' hm'
      rw [← hvalue']
      cases s' with
      | positive => rw [UnpackedFloat.compare, Int.compare_eq_lt.2 (by simp only [Sign.apply]; omega)]
      | negative => rw [UnpackedFloat.compare, Int.compare_eq_gt.2 (by simp only [Sign.apply]; omega)]
  | finite s m e hm _ hlow hhigh hleast _ hvalue =>
    have := hpos e hm
    rw [← hvalue]
    cases h' with
    | zero =>
      cases s with
      | positive => rw [UnpackedFloat.compare, Int.compare_eq_gt.2 (by simp only [Sign.apply]; omega)]
      | negative => rw [UnpackedFloat.compare, Int.compare_eq_lt.2 (by simp only [Sign.apply]; omega)]
    | finite s' m' e' hm' _ hlow' hhigh' hleast' _ hvalue' =>
      have := hpos e' hm'
      rw [← hvalue']
      cases s <;> cases s'
      · rw [UnpackedFloat.compare, compare_magnitudes hlow hhigh hlow' hhigh' hleast hleast',
          Int.compare_swap]
        exact congrArg some (compare_congr Int.neg_lt_neg_iff.symm Int.neg_lt_neg_iff.symm)
      · rw [UnpackedFloat.compare, Int.compare_eq_lt.2 (by simp only [Sign.apply]; omega)]
      · rw [UnpackedFloat.compare, Int.compare_eq_gt.2 (by simp only [Sign.apply]; omega)]
      · exact congrArg some (compare_magnitudes hlow hhigh hlow' hhigh' hleast hleast')

/-! ## Packing -/

/-- A normal number is what its bits stand for. -/
theorem Stands.unpack_pack {u : UnpackedFloat} {v : Int} (h : Stands u v) :
    (Float.Model.pack u).unpack = u := by
  cases h with
  | zero => rfl
  | finite s m e hm v hlow hhigh hleast hgreatest hvalue =>
    have hlog : m.log2 = 52 := (Nat.log2_eq_iff (Nat.ne_of_gt hm)).2 ⟨hlow, hhigh⟩
    obtain ⟨b, hb⟩ : ∃ b : Nat, e = (b : Int) - 1075 := ⟨(e + 1075).toNat, by omega⟩
    have hbiased : (e + Format.binary64.exponentBias + (52 : Nat)).toNat = b := by
      have hbias : Format.binary64.exponentBias = 1023 := rfl
      omega
    have hexponent : (BitVec.ofNat 11 b).toNat = b := Nat.mod_eq_of_lt (by omega)
    have hnotLast : BitVec.ofNat 11 b ≠ -1#11 := fun heq => by
      have := congrArg BitVec.toNat heq
      rw [hexponent] at this
      simp at this
      omega
    have hnotZero : BitVec.ofNat 11 b ≠ 0#11 := fun heq => by
      have := congrArg BitVec.toNat heq
      rw [hexponent] at this
      simp at this
      omega
    have hmantissa : (1#1 ++ BitVec.ofNat 52 m).toNat = m := by
      rw [BitVec.toNat_append, ← Nat.shiftLeft_add_eq_or_of_lt (BitVec.isLt _), BitVec.toNat_ofNat]
      simp only [BitVec.toNat_ofNat, Nat.shiftLeft_eq]
      omega
    have hpack : UnpackedFloat.pack .binary64 (.finite s m e hm) =
        packComponents .binary64 s (BitVec.ofNat 11 b) (BitVec.ofNat 52 m) := by
      rw [UnpackedFloat.pack]
      simp only [hbiased, hlog]
      rw [if_neg (by omega), if_pos (show 52 + 1 = Format.binary64.mantissaBits from rfl)]
    have hunpack : UnpackedFloat.unpack .binary64
        (packComponents .binary64 s (BitVec.ofNat 11 b) (BitVec.ofNat 52 m)) = .finite s m e hm := by
      rw [UnpackedFloat.unpack]
      simp only [unpackExponent_packComponents, unpackMantissa_packComponents,
        unpackSign_packComponents, Sign.ofBitVec_toBitVec, if_neg hnotLast, if_neg hnotZero, hexponent,
        hmantissa]
      congr 1
      rw [hb]
      rfl
    calc (Float.Model.pack (.finite s m e hm)).unpack
        = UnpackedFloat.unpack .binary64 (UnpackedFloat.pack .binary64 (.finite s m e hm)) := rfl
      _ = .finite s m e hm := by rw [hpack, hunpack]

/-! ## Rounding in the operations -/

/-- A mantissa that is shifted right keeps its quotient, and two bits that tell whether the remainder
reaches half and whether it is more than nothing or half. -/
structure Keeps (em : ExtendedMantissa) (m k : Nat) : Prop where
  mantissa : em.mantissa = m / 2 ^ k
  roundBit : em.roundBit = decide (2 ^ k ≤ 2 * (m % 2 ^ k))
  stickyBit : em.stickyBit = decide (2 * (m % 2 ^ k) % 2 ^ k ≠ 0)

/-- One more bit is cut off, and what was cut off is still known as far as rounding needs it. -/
theorem Keeps.shiftRightOne {em : ExtendedMantissa} {m k : Nat} (h : Keeps em m k) :
    Keeps em.shiftRightOne m (k + 1) := by
  have hr : m % 2 ^ k < 2 ^ k := Nat.mod_lt m (Nat.two_pow_pos k)
  have hq : m / 2 ^ k % 2 = 0 ∨ m / 2 ^ k % 2 = 1 := Nat.mod_two_eq_zero_or_one _
  have hmod : m % 2 ^ (k + 1) = m % 2 ^ k + 2 ^ k * (m / 2 ^ k % 2) := by
    rw [Nat.pow_succ, Nat.mod_mul]
  have hpow : 2 ^ (k + 1) = 2 * 2 ^ k := by rw [Nat.pow_succ, Nat.mul_comm]
  refine ⟨?_, ?_, ?_⟩
  · rw [ExtendedMantissa.shiftRightOne, h.mantissa, Nat.pow_succ, Nat.div_div_eq_div_mul]
  · rw [ExtendedMantissa.shiftRightOne, h.mantissa, hmod, hpow]
    rcases hq with hq | hq
    · rw [hq]
      simp
      omega
    · rw [hq]
      simp
  · -- either bit was set exactly if some remainder was left
    have hrest : 2 * (m % 2 ^ (k + 1)) % 2 ^ (k + 1) = 2 * (m % 2 ^ k) := by
      rw [hmod, hpow, Nat.mul_add, ← Nat.mul_assoc, Nat.add_mul_mod_self_left,
        Nat.mod_eq_of_lt (by omega)]
    rw [ExtendedMantissa.shiftRightOne, h.roundBit, h.stickyBit, hrest, ← Bool.decide_or]
    refine decide_eq_decide.2 ⟨fun hbits => ?_, fun hne => ?_⟩
    · rcases hbits with hhalf | hrest
      · have := Nat.two_pow_pos k
        omega
      · intro hzero
        rw [hzero, Nat.zero_mod] at hrest
        exact hrest rfl
    · rcases Nat.lt_or_ge (2 * (m % 2 ^ k)) (2 ^ k) with hlt | hge
      · rw [Nat.mod_eq_of_lt hlt]
        exact .inr hne
      · exact .inl hge

/-- After any number of bits that were cut off it is known as far as rounding needs it. -/
theorem keeps_shiftRight (m k : Nat) : Keeps (ExtendedMantissa.mk m false false >>> k) m k := by
  induction k with
  | zero => exact ⟨(Nat.div_one m).symm, by simp [Nat.mod_one]; rfl, by simp [Nat.mod_one]; rfl⟩
  | succ k ih => exact ih.shiftRightOne

/-- So the mantissa is rounded as the number is. -/
theorem Keeps.roundedMantissa_eq {em : ExtendedMantissa} {m k : Nat} (h : Keeps em m k) :
    em.roundedMantissa = halfEven m k := by
  obtain ⟨mantissa, roundBit, stickyBit⟩ := em
  obtain ⟨hm, hr, hs⟩ := h
  have hlt : m % 2 ^ k < 2 ^ k := Nat.mod_lt m (Nat.two_pow_pos k)
  dsimp only at hm hr hs
  subst hm hr hs
  rcases Nat.lt_or_ge (2 * (m % 2 ^ k)) (2 ^ k) with hbelow | habove
  · rw [halfEven, if_pos hbelow, decide_eq_false (Nat.not_le.2 hbelow)]
    cases decide (2 * (m % 2 ^ k) % 2 ^ k ≠ 0) <;> rfl
  · have hsticky : 2 * (m % 2 ^ k) % 2 ^ k = 2 * (m % 2 ^ k) - 2 ^ k := by
      rw [Nat.mod_eq_sub_mod habove, Nat.mod_eq_of_lt (by omega)]
    rw [halfEven, if_neg (Nat.not_lt.2 habove), decide_eq_true habove, hsticky]
    split
    next heq =>
      rw [decide_eq_false (by omega)]
      rfl
    next hne =>
      rw [decide_eq_true (by omega)]
      rfl

/-- A number with more than 53 bits is shifted until 53 are left. -/
theorem shiftToTargetExponent_eq {m k : Nat} {e : Int} (hlog : m.log2 = 52 + k) (he : -52 ≤ e + k) :
    shiftToTargetExponent .binary64 m e .exact = (ExtendedMantissa.mk m false false >>> k, e + k) := by
  have htarget : Format.binary64.targetExponent (totalExponent m e) = e + k := by
    simp only [Format.targetExponent, totalExponent, Format.mantissaBits, Format.minExponent, hlog]
    omega
  have hshift : (e + k - e).toNat = k := by omega
  rw [shiftToTargetExponent, htarget, shiftToExponent, hshift]
  rfl

/-- A rounded mantissa has 53 bits, or is the power of two above. -/
theorem halfEven_bounds {m k : Nat} (hlog : m.log2 = 52 + k) :
    2 ^ 52 ≤ halfEven m k ∧ halfEven m k ≤ 2 ^ 53 := by
  have hm : m ≠ 0 := by
    rintro rfl
    rw [Nat.log2_zero] at hlog
    omega
  obtain ⟨hlow, hhigh⟩ := (Nat.log2_eq_iff hm).1 hlog
  rw [Nat.add_right_comm, Nat.pow_add] at hhigh
  rw [Nat.pow_add] at hlow
  have hround := halfEven_mono k hlow
  have hround' := halfEven_mono k (Nat.le_of_lt hhigh)
  rw [halfEven_mul_two_pow] at hround hround'
  exact ⟨hround, hround'⟩

section Rounding

variable {s : Sign} {m k : Nat} {e : Int}

/-- Rounding keeps 53 bits. -/
theorem roundWithAccuracy_of_lt (hlog : m.log2 = 52 + k) (he : -52 ≤ e + k) (hm : 0 < halfEven m k)
    (hfits : halfEven m k < 2 ^ 53) :
    roundWithAccuracy .binary64 s m e .exact = .finite s (halfEven m k) (e + k) hm := by
  have hrounded := (keeps_shiftRight m k).roundedMantissa_eq
  have hagain := shiftToTargetExponent_eq (k := 0) (e := e + k)
    ((Nat.log2_eq_iff (Nat.ne_of_gt hm)).2 ⟨(halfEven_bounds hlog).1, hfits⟩) (by omega)
  have hfinal : (ExtendedMantissa.mk (halfEven m k) false false >>> 0).mantissa = halfEven m k := rfl
  rw [roundWithAccuracy, shiftToTargetExponent_eq hlog he]
  dsimp only
  simp only [hrounded, hagain, hfinal]
  rw [dif_neg (Nat.ne_of_gt hm)]
  congr 1
  omega

/-- A carry out of the 53 bits leaves a power of two, which is shifted once more. -/
theorem roundWithAccuracy_of_eq (hlog : m.log2 = 52 + k) (he : -52 ≤ e + k)
    (hcarry : halfEven m k = 2 ^ 53) :
    roundWithAccuracy .binary64 s m e .exact = .finite s (2 ^ 52) (e + k + 1) (by decide) := by
  have hrounded := (keeps_shiftRight m k).roundedMantissa_eq
  have hagain := shiftToTargetExponent_eq (m := 2 ^ 53) (k := 1) (e := e + k) Nat.log2_two_pow (by omega)
  have hfinal : (ExtendedMantissa.mk (2 ^ 53) false false >>> 1).mantissa = 2 ^ 52 :=
    (keeps_shiftRight (2 ^ 53) 1).mantissa
  rw [roundWithAccuracy, shiftToTargetExponent_eq hlog he]
  dsimp only
  simp only [hrounded, hcarry, hagain, hfinal]
  rfl

/-- What is rounded in the range of normal floats stands for the rounded number. -/
theorem stands_roundWithAccuracy {v : Int} (hlog : m.log2 = 52 + k) (hleast : -52 ≤ e + k)
    (hgreatest : e + k ≤ 970)
    (hvalue : s.apply (halfEven m k * 2 ^ (e + k + 52).toNat : Nat) = v * 2 ^ 52) :
    Stands (roundWithAccuracy .binary64 s m e .exact) v := by
  obtain ⟨hlow, hhigh⟩ := halfEven_bounds hlog
  rcases Nat.eq_or_lt_of_le hhigh with hcarry | hfits
  · rw [roundWithAccuracy_of_eq hlog hleast hcarry]
    refine .finite s _ _ _ v (Nat.le_refl _) (by decide) (by omega) (by omega) ?_
    have hplace : (e + k + 1 + 52).toNat = (e + k + 52).toNat + 1 := by omega
    rw [← hvalue, hcarry, hplace, Nat.pow_succ]
    congr 2
    ring
  · rw [roundWithAccuracy_of_lt hlog hleast (by omega) hfits]
    exact .finite s _ _ _ v hlow hfits hleast (by omega) hvalue

end Rounding

theorem log2_mul_two_pow {m : Nat} (j : Nat) (hm : 0 < m) : (m * 2 ^ j).log2 = m.log2 + j := by
  have hpos : 0 < m * 2 ^ j := Nat.mul_pos hm (Nat.two_pow_pos j)
  refine (Nat.log2_eq_iff (Nat.ne_of_gt hpos)).2 ⟨?_, ?_⟩
  · rw [Nat.pow_add]
    exact Nat.mul_le_mul_right _ (Nat.log2_self_le (Nat.ne_of_gt hm))
  · rw [Nat.add_right_comm, Nat.pow_add]
    exact Nat.mul_lt_mul_of_pos_right Nat.lt_log2_self (Nat.two_pow_pos j)

/-- A normal number times one is itself. -/
theorem Stands.mul_one {u : UnpackedFloat} {v : Int} (h : Stands u v) :
    UnpackedFloat.mul .binary64 u (.finite .positive (2 ^ 52) (-52) (by decide)) = u := by
  cases h with
  | zero => rfl
  | finite s m e hm _ hlow hhigh hleast _ _ =>
    have hsign : s * .positive = s := by cases s <;> rfl
    have hlog : (m * 2 ^ 52).log2 = 52 + 52 := by
      rw [log2_mul_two_pow 52 hm, (Nat.log2_eq_iff (Nat.ne_of_gt hm)).2 ⟨hlow, hhigh⟩]
    have hround := halfEven_mul_two_pow m 52
    rw [UnpackedFloat.mul, hsign,
      roundWithAccuracy_of_lt hlog (by omega) (by rwa [hround]) (by rwa [hround])]
    congr 1
    omega

/-! ## Integers -/

/-- A number that fits the significand is shifted up to fill it, and nothing is rounded. -/
theorem stands_toFloat {m : Nat} (hm : 0 < m) (h : m < 2 ^ 53) :
    Stands m.toUInt64.toFloat.toModel.unpack m := by
  have hlog : m.log2 < 53 := (Nat.log2_lt (Nat.ne_of_gt hm)).2 h
  obtain ⟨j, hj⟩ : ∃ j : Nat, m.log2 + j = 52 := ⟨52 - m.log2, by omega⟩
  have hword : m.toUInt64.toNat = m := UInt64.toNat_ofNat_of_lt' (Nat.lt_trans h (by decide))
  have hpositive : compare (m : Int) 0 = .gt := Int.compare_eq_gt.2 (by omega)
  have htarget : Format.binary64.targetExponent (totalExponent m 0) = -j := by
    simp only [Format.targetExponent, totalExponent, Format.mantissaBits, Format.minExponent]
    omega
  have hround : UnpackedFloat.normalize .binary64 m.toUInt64.toNat 0 .positive =
      roundWithAccuracy .binary64 .positive (m * 2 ^ j) (-j) .exact := by
    have hshift : (0 - (-j : Int)).toNat = j := by omega
    rw [hword, UnpackedFloat.normalize, hpositive]
    simp only [UnpackedFloat.round, Int.toNat_natCast, htarget, decreaseExponent, hshift,
      Nat.shiftLeft_eq]
    rw [Int.zero_sub]
  have hstands : Stands (UnpackedFloat.normalize .binary64 m.toUInt64.toNat 0 .positive) m := by
    have hplace : (-j + (0 : Nat) + 52 : Int).toNat = 52 - j := by omega
    rw [hround]
    refine stands_roundWithAccuracy (k := 0) ((log2_mul_two_pow j hm).trans hj) (by omega) (by omega) ?_
    rw [halfEven_zero, hplace, Nat.mul_assoc, ← Nat.pow_add, Nat.add_sub_cancel' (by omega)]
    exact Int.natCast_mul _ _
  change Stands (Float.Model.pack
    (UnpackedFloat.normalize .binary64 m.toUInt64.toNat 0 .positive)).unpack m
  rw [hstands.unpack_pack]
  exact hstands

/-- A float that is made of a number of at most 53 bits stands for the number. -/
theorem stands_ofNat_of_lt {m : Nat} (hm : 0 < m) (h : m < 2 ^ 53) :
    Stands (Float.ofNat m).toModel.unpack m := by
  have hword := stands_toFloat hm h
  have hproduct : (Float.ofNat m).toModel.unpack = (Float.Model.pack (UnpackedFloat.mul .binary64
      m.toUInt64.toFloat.toModel.unpack (.finite .positive (2 ^ 52) (-52) (by decide)))).unpack := by
    have hone : (Float.ofBits 0x3FF0000000000000).toModel.unpack =
        .finite .positive (2 ^ 52) (-52) (by decide) := rfl
    change (Float.ofScientific m false 0).toModel.unpack = _
    rw [Float.ofScientific, dif_pos ⟨h, by decide⟩, ← hone]
    rfl
  rw [hproduct, hword.mul_one, hword.unpack_pack]
  exact hword

/-- A number that does not fit is rounded to its first 53 bits. -/
theorem stands_ofNat_of_le {m : Nat} (h : 2 ^ 53 ≤ m) (hlt : m < 2 ^ 64) :
    Stands (Float.ofNat m).toModel.unpack (nearestNat m) := by
  have hm : 0 < m := Nat.lt_of_lt_of_le (by decide) h
  obtain ⟨k, hk⟩ : ∃ k : Nat, m.log2 = 52 + k :=
    ⟨m.log2 - 52, by have := (Nat.le_log2 (Nat.ne_of_gt hm)).2 h; omega⟩
  have hlog : m.log2 < 64 := (Nat.log2_lt (Nat.ne_of_gt hm)).2 hlt
  have hdigits : UnpackedFloat.ofScientific .binary64 m 0 =
      roundWithAccuracy .binary64 .positive (m * 2 ^ 53) (-53) .exact := by
    have hexponents : (2 : Int) ^ Format.binary64.exponentBits = 2048 := rfl
    have hmantissa : m <<< Format.binary64.mantissaBits * 10 ^ (0 : Int).toNat = m * 2 ^ 53 := by
      rw [Nat.shiftLeft_eq]
      exact Nat.mul_one _
    rw [UnpackedFloat.ofScientific, dif_neg (Nat.ne_of_gt hm), hexponents, if_neg (by decide),
      if_neg (by omega), if_pos (Int.le_refl 0), UnpackedFloat.mul, hmantissa]
    rfl
  have hstands : Stands (UnpackedFloat.ofScientific .binary64 m 0) (nearestNat m) := by
    rw [hdigits]
    refine stands_roundWithAccuracy (k := k + 53) ?_ (by omega) (by omega) ?_
    · rw [log2_mul_two_pow 53 hm, hk, Nat.add_assoc]
    · have hplace : (-53 + (k + 53 : Nat) + 52 : Int).toNat = k + 52 := by omega
      rw [halfEven_shift, hplace, nearestNat, hk, Nat.add_sub_cancel_left, Nat.pow_add, ← Nat.mul_assoc]
      exact Int.natCast_mul _ _
  have hofNat : (Float.ofNat m).toModel.unpack =
      (Float.Model.pack (UnpackedFloat.ofScientific .binary64 m 0)).unpack := by
    change (Float.ofScientific m false 0).toModel.unpack = _
    rw [Float.ofScientific, dif_neg fun hshort => Nat.not_lt.2 h hshort.1]
    rfl
  rw [hofNat, hstands.unpack_pack]
  exact hstands

/-- A float that is made of a number of 64 bits stands for the nearest one. -/
theorem stands_ofNat {m : Nat} (h : m < 2 ^ 64) : Stands (Float.ofNat m).toModel.unpack (nearest m) := by
  rw [nearest_natCast]
  rcases Nat.eq_zero_or_pos m with rfl | hm
  · exact .zero
  rcases Nat.lt_or_ge m (2 ^ 53) with hshort | hlong
  · rw [nearestNat_of_lt hshort]
    exact stands_ofNat_of_lt hm hshort
  · exact stands_ofNat_of_le hlong h

/-- The opposite of a float stands for the opposite number, unless this is zero. -/
theorem Stands.neg {u : UnpackedFloat} {v : Int} (h : Stands u v) (hv : v ≠ 0) : Stands u.neg (-v) := by
  cases h with
  | zero => exact absurd rfl hv
  | finite s m e hm _ hlow hhigh hleast hgreatest hvalue =>
    refine .finite _ m e hm _ hlow hhigh hleast hgreatest ?_
    rw [Int.neg_mul, ← hvalue]
    cases s with
    | negative => exact (Int.neg_neg _).symm
    | positive => rfl

/-- The float of an integer has the nearest value. -/
theorem stands_ofInt64 (n : Int64) : Stands (ofInt64 n).toModel.unpack (nearest n.toInt) := by
  have hleast := Int64.le_toInt n
  have hgreatest := Int64.toInt_lt n
  rw [ofInt64]
  generalize n.toInt = v at hleast hgreatest ⊢
  cases v with
  | ofNat m =>
    rw [Int.ofNat_eq_natCast] at hgreatest
    exact stands_ofNat (by omega)
  | negSucc m =>
    have hpos := stands_ofNat (m := m + 1) (by omega)
    have hne : nearest (m + 1 : Nat) ≠ 0 := by
      rw [nearest_natCast]
      have := nearestNat_pos (m := m + 1) (by omega)
      omega
    have hneg := hpos.neg hne
    change Stands (Float.Model.pack (Float.ofNat (m + 1)).toModel.unpack.neg).unpack _
    rw [hneg.unpack_pack, Int.negSucc_eq, nearest_neg]
    exact hneg

/-- The floats of two integers are ordered as their nearest numbers are. -/
theorem ofInt64_le_iff (a b : Int64) : ofInt64 a ≤ ofInt64 b ↔ nearest a.toInt ≤ nearest b.toInt := by
  have hcompare := (stands_ofInt64 a).compare_eq (stands_ofInt64 b)
  change decide (((ofInt64 a).toModel.unpack.compare (ofInt64 b).toModel.unpack).any (·.isLE) = true) =
    true ↔ _
  rw [hcompare, decide_eq_true_iff]
  exact Int.isLE_compare

/-- They are equal if the nearest numbers are. -/
theorem ofInt64_beq_iff (a b : Int64) :
    (ofInt64 a == ofInt64 b) = true ↔ nearest a.toInt = nearest b.toInt := by
  have hcompare := (stands_ofInt64 a).compare_eq (stands_ofInt64 b)
  change ((ofInt64 a).toModel.unpack.compare (ofInt64 b).toModel.unpack == some .eq) = true ↔ _
  rw [hcompare, beq_iff_eq, Option.some.injEq]
  exact Int.compare_eq_eq

end TickScript.Binary64
