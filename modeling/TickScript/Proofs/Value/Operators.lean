import TickScript.Value.Operators

/-!
# What operators come to

An operator makes nothing but numbers: its result is a number or one of its operands. Where it has no
result it says why, and never for a cause that a compiled program cannot meet.
-/

namespace TickScript

/-! ## Results -/

/-- Whether a value is a number. -/
def Value.isNumber : Value → Bool
  | .int _ | .float _ => true
  | _ => false

/-- A number is in no cell. -/
theorem Value.cell?_of_isNumber {v : Value} (h : v.isNumber) : v.cell? = none := by
  cases v with
  | int | float => rfl
  | _ => exact nomatch h

/-- A unary operator gives a number. -/
theorem UnaryOp.isNumber_apply {op : UnaryOp} {v result : Value} (h : op.apply v = .ok result) :
    result.isNumber := by
  unfold UnaryOp.apply at h
  split at h <;> cases h <;> rfl

/-- Arithmetic gives a number. -/
theorem isNumber_arithmetic {onInts : Int64 → Int64 → Except Cause Int64}
    {onFloats : Float → Float → Float} {v w result : Value}
    (h : arithmetic onInts onFloats v w = .ok result) : result.isNumber := by
  unfold arithmetic at h
  split at h
  · next a b =>
    cases hn : onInts a b with
    | error cause =>
      rw [hn] at h
      exact nomatch h
    | ok n =>
      rw [hn] at h
      cases h
      rfl
  · cases h
    rfl
  · cases h

/-- A comparison gives a number. -/
theorem isNumber_comparison {onInts : Int64 → Int64 → Bool} {onFloats : Float → Float → Bool}
    {v w result : Value} (h : comparison onInts onFloats v w = .ok result) : result.isNumber := by
  unfold comparison at h
  split at h <;> cases h <;> rfl

/-- The result of an operator is a number or one of the operands. -/
theorem BinaryOp.isNumber_or_eq {op : BinaryOp} {v w result : Value} (h : op.apply v w = .ok result) :
    result.isNumber ∨ result = v ∨ result = w := by
  cases op with
  | add | sub | mul | div | rem => exact .inl (isNumber_arithmetic h)
  | less | lessEqual | greater | greaterEqual => exact .inl (isNumber_comparison h)
  | equal | notEqual =>
    cases h
    exact .inl rfl
  | and | or =>
    cases h
    right
    split
    · simp
    · simp

/-! ## Causes -/

/-- No unary operator fails with an internal error. -/
theorem isInternal_unary {op : UnaryOp} {v : Value} {cause : Cause}
    (h : op.apply v = .error cause) : cause.isInternal = false := by
  unfold UnaryOp.apply at h
  split at h
  all_goals cases h
  rfl

/-- Arithmetic fails with an internal error only if its operation on integers does. -/
theorem isInternal_arithmetic {onInts : Int64 → Int64 → Except Cause Int64}
    {onFloats : Float → Float → Float} {v w : Value} {cause : Cause}
    (hi : ∀ a b cause, onInts a b = .error cause → cause.isInternal = false)
    (h : arithmetic onInts onFloats v w = .error cause) : cause.isInternal = false := by
  unfold arithmetic at h
  split at h
  · next a b =>
    cases he : onInts a b with
    | error cause' =>
      rw [he] at h
      cases h
      exact hi a b cause he
    | ok n =>
      rw [he] at h
      exact nomatch h
  · cases h
  · cases h
    rfl

/-- No comparison fails with an internal error. -/
theorem isInternal_comparison {onInts : Int64 → Int64 → Bool} {onFloats : Float → Float → Bool}
    {v w : Value} {cause : Cause} (h : comparison onInts onFloats v w = .error cause) :
    cause.isInternal = false := by
  unfold comparison at h
  split at h
  all_goals cases h
  rfl

/-- Division by zero is no internal error. -/
theorem isInternal_unlessZero {f : Int64 → Int64 → Int64} (a b : Int64) (cause : Cause)
    (h : unlessZero f a b = .error cause) : cause.isInternal = false := by
  unfold unlessZero at h
  split at h
  all_goals cases h
  rfl

/-- An operator that has no value says why, and never for an internal cause. -/
theorem isInternal_binary {op : BinaryOp} {v w : Value} {cause : Cause}
    (h : op.apply v w = .error cause) : cause.isInternal = false := by
  cases op with
  | add | sub | mul => exact isInternal_arithmetic (by intro _ _ _ he; cases he) h
  | div | rem => exact isInternal_arithmetic isInternal_unlessZero h
  | less | lessEqual | greater | greaterEqual => exact isInternal_comparison h
  | equal | notEqual | and | or => exact nomatch h

end TickScript
