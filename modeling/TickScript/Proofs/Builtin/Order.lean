import TickScript.Proofs.Binary64.Nearest
import TickScript.Proofs.Builtin.Conduct

/-!
# The lesser and the greater of two integers

The functions `min` and `max` compare integers as floats and `clamp` compares them as they are. Floats
keep the order of integers but do not tell all of them apart: where two integers are **merged** into one
float, `min` and `max` give the first of them, be it the lesser or the greater. They agree with the order
of the integers, with each other's arguments exchanged and with `clamp` everywhere else
(`integers_ordered_unless_merged`).

Integers are merged only from `2 ^ 53` on, and only with others at most 1024 away.
-/

namespace TickScript

namespace Binary64

/-- Two integers are merged if they differ and their floats do not. -/
def Merged (a b : Int64) : Prop := a ≠ b ∧ (ofInt64 a == ofInt64 b) = true

instance (a b : Int64) : Decidable (Merged a b) := inferInstanceAs (Decidable (_ ∧ _))

/-- Integers are merged if they differ and their nearest floats do not. -/
theorem merged_iff {a b : Int64} : Merged a b ↔ a ≠ b ∧ nearest a.toInt = nearest b.toInt :=
  and_congr_right' (ofInt64_beq_iff a b)

theorem Merged.symm {a b : Int64} (h : Merged a b) : Merged b a := by
  rw [merged_iff] at h ⊢
  exact ⟨h.1.symm, h.2.symm⟩

/-- Merging does not depend on the order of the two. -/
theorem merged_comm {a b : Int64} : Merged a b ↔ Merged b a := ⟨.symm, .symm⟩

/-- The floats of two integers are in order exactly if the integers are, or are merged. -/
theorem ofInt64_le_iff_merged {a b : Int64} : ofInt64 a ≤ ofInt64 b ↔ ¬(b < a ∧ ¬Merged a b) := by
  rw [ofInt64_le_iff, merged_iff, Int64.lt_iff_toInt_lt]
  constructor
  · rintro hle ⟨hlt, hnot⟩
    exact hnot ⟨fun heq => by rw [heq] at hlt; omega, Int.le_antisymm hle (nearest_mono (by omega))⟩
  · intro hnot
    rcases Int.lt_or_le b.toInt a.toInt with hlt | hge
    · by_contra hle
      exact hnot ⟨hlt, fun hmerged => hle (Int.le_of_eq hmerged.2)⟩
    · exact nearest_mono hge

/-- Integers are merged only far from zero and only with near ones. -/
theorem Merged.near {a b : Int64} (h : Merged a b) :
    2 ^ 53 ≤ a.toInt.natAbs ∧ (a.toInt - b.toInt).natAbs ≤ 1024 := by
  obtain ⟨hne, heq⟩ := merged_iff.1 h
  have hword (n : Int64) : n.toInt.natAbs ≤ 2 ^ 63 := by
    have := n.le_toInt
    have := n.toInt_lt
    omega
  constructor
  · by_contra hlt
    have ha : nearest a.toInt = a.toInt := nearest_of_le (by omega)
    have hb : nearest b.toInt = b.toInt := nearest_of_nearest_lt (by omega)
    exact hne (Int64.toInt_inj.1 (by rw [← ha, ← hb, heq]))
  · have ha := nearest_error (hword a)
    have hb := nearest_error (hword b)
    omega

end Binary64

/-! ## Integers of 64 bits -/

theorem int64_min_eq_ite (a b : Int64) : min a b = if b < a then b else a := by
  simp only [← Int64.not_le, ite_not]
  rfl

theorem int64_max_eq_ite (a b : Int64) : max a b = if a < b then b else a := by
  change (if a ≤ b then b else a) = _
  rcases Std.lt_trichotomy a b with hlt | rfl | hgt
  · rw [if_pos hlt, if_pos (Int64.le_of_lt hlt)]
  · rw [ite_self, ite_self]
  · rw [if_neg (Int64.not_le.2 hgt), if_neg (Int64.lt_asymm hgt)]

theorem int64_min_comm (a b : Int64) : min a b = min b a := by
  rw [int64_min_eq_ite, int64_min_eq_ite]
  rcases Std.lt_trichotomy a b with hlt | rfl | hgt
  · rw [if_neg (Int64.lt_asymm hlt), if_pos hlt]
  · rfl
  · rw [if_pos hgt, if_neg (Int64.lt_asymm hgt)]

theorem int64_max_comm (a b : Int64) : max a b = max b a := by
  rw [int64_max_eq_ite, int64_max_eq_ite]
  rcases Std.lt_trichotomy a b with hlt | rfl | hgt
  · rw [if_pos hlt, if_neg (Int64.lt_asymm hlt)]
  · rfl
  · rw [if_neg (Int64.lt_asymm hgt), if_pos hgt]

/-! ## The functions -/

open Binary64 (Merged)

namespace Builtin

variable {κ : Type}

/-- A comparison of floats decides between two integers as an order of the integers does, but for those that
are merged: of these the first is taken. -/
def Picks (first : Float → Float → Bool) (before : Int64 → Int64 → Prop) : Prop :=
  ∀ a b : Int64, first (Binary64.ofInt64 a) (Binary64.ofInt64 b) = true ↔ ¬(before b a ∧ ¬Merged a b)

theorem picks_lesser : Picks (fun x y => x ≤ y) (· < ·) := by
  intro a b
  rw [decide_eq_true_iff, Binary64.ofInt64_le_iff_merged]

theorem picks_greater : Picks (fun x y => y ≤ x) (· > ·) := by
  intro a b
  rw [decide_eq_true_iff, Binary64.ofInt64_le_iff_merged, Binary64.merged_comm]

section Picks

variable {first : Float → Float → Bool} {before : Int64 → Int64 → Prop} {a b : Int64} (m : Machine)

/-- Of two integers that are not merged the one is picked that comes first. -/
theorem Picks.pick_of_not_merged [DecidableRel before] (h : Picks first before) (hnot : ¬Merged a b) :
    pick first m [.int a, .int b] = .ok (.int (if before b a then b else a)) := by
  have hfirst : first (Binary64.ofInt64 a) (Binary64.ofInt64 b) = true ↔ ¬before b a := by
    rw [h a b, and_iff_left hnot]
  simp only [pick, hfirst, ite_not]

/-- Of two integers that are merged the first argument is picked. -/
theorem Picks.pick_of_merged (h : Picks first before) (hmerged : Merged a b) :
    pick first m [.int a, .int b] = .ok (.int a) := by
  have hfirst := (h a b).2 fun hbefore => hbefore.2 hmerged
  simp only [pick, hfirst, if_true]

end Picks

variable (m : Machine) (c : κ)

/-- The lesser of two integers is found, unless their floats are one. -/
theorem run_min_of_not_merged {a b : Int64} (h : ¬Merged a b) :
    min.run [.int a, .int b] m c = m.reply (.ok (.int (Min.min a b))) c := by
  rw [int64_min_eq_ite, ← picks_lesser.pick_of_not_merged m h]
  rfl

/-- The greater of two integers is found, unless their floats are one. -/
theorem run_max_of_not_merged {a b : Int64} (h : ¬Merged a b) :
    max.run [.int a, .int b] m c = m.reply (.ok (.int (Max.max a b))) c := by
  rw [int64_max_eq_ite, ← picks_greater.pick_of_not_merged m h]
  rfl

/-- Keeping an integer within bounds goes by the integers themselves. -/
theorem run_clamp (v low high : Int64) : clamp.run [.int v, .int low, .int high] m c =
    m.reply (.ok (.int (Max.max (Min.min v high) low))) c := by
  rw [int64_max_eq_ite, int64_min_eq_ite]
  rfl

end Builtin

/-- **The order of integers.** Unless two integers are merged, `min` gives the lesser and `max` the
greater, in either order of the arguments; of two that are merged both give the first. Merged integers
are far from zero and near each other. `clamp` gives the greater of `low` and the lesser of `v` and
`high` for all integers, and so does `max` of `min` where neither has to do with merged ones. -/
theorem integers_ordered_unless_merged {κ : Type} (m : Machine) (c : κ) :
    (∀ a b : Int64, ¬Merged a b →
      Builtin.min.run [.int a, .int b] m c = m.reply (.ok (.int (min a b))) c ∧
      Builtin.min.run [.int b, .int a] m c = m.reply (.ok (.int (min a b))) c ∧
      Builtin.max.run [.int a, .int b] m c = m.reply (.ok (.int (max a b))) c ∧
      Builtin.max.run [.int b, .int a] m c = m.reply (.ok (.int (max a b))) c) ∧
    (∀ a b : Int64, Merged a b →
      Builtin.min.run [.int a, .int b] m c = m.reply (.ok (.int a)) c ∧
      Builtin.max.run [.int a, .int b] m c = m.reply (.ok (.int a)) c ∧
      2 ^ 53 ≤ a.toInt.natAbs ∧ (a.toInt - b.toInt).natAbs ≤ 1024) ∧
    ∀ v low high : Int64,
      Builtin.clamp.run [.int v, .int low, .int high] m c =
        m.reply (.ok (.int (max (min v high) low))) c ∧
      (¬Merged v high → ¬Merged (min v high) low → ∃ lesser : Int64,
        Builtin.min.run [.int v, .int high] m c = m.reply (.ok (.int lesser)) c ∧
        Builtin.max.run [.int lesser, .int low] m c =
          Builtin.clamp.run [.int v, .int low, .int high] m c) := by
  refine ⟨fun a b hnot => ?_, fun a b hmerged => ?_, fun v low high => ?_⟩
  · have hnot' : ¬Merged b a := fun h => hnot h.symm
    refine ⟨Builtin.run_min_of_not_merged m c hnot, ?_, Builtin.run_max_of_not_merged m c hnot, ?_⟩
    · rw [Builtin.run_min_of_not_merged m c hnot', int64_min_comm]
    · rw [Builtin.run_max_of_not_merged m c hnot', int64_max_comm]
  · have hmin := Builtin.picks_lesser.pick_of_merged m hmerged
    have hmax := Builtin.picks_greater.pick_of_merged m hmerged
    exact ⟨congrArg (m.reply · c) hmin, congrArg (m.reply · c) hmax, hmerged.near⟩
  · refine ⟨Builtin.run_clamp m c v low high, fun hnot hnot' => ⟨min v high, ?_, ?_⟩⟩
    · exact Builtin.run_min_of_not_merged m c hnot
    · rw [Builtin.run_max_of_not_merged m c hnot', Builtin.run_clamp]

/-- The functions at the top of the integers, and at the first two that are merged. -/
theorem integers_ordered_unless_merged_greatest :
    let m : Machine := .vacant 0 .empty []
    (¬Merged 9223372036854775807 9223372036854774784 ∧
      Builtin.min.run [.int 9223372036854775807, .int 9223372036854774784] m () =
        m.reply (.ok (.int 9223372036854774784)) ()) ∧
    (Merged 9007199254740993 9007199254740992 ∧
      Builtin.min.run [.int 9007199254740993, .int 9007199254740992] m () =
        m.reply (.ok (.int 9007199254740993)) ()) ∧
    ∃ lesser : Int64,
      Builtin.min.run [.int 9223372036854775807, .int 9223372036854774784] m () =
        m.reply (.ok (.int lesser)) () ∧
      Builtin.max.run [.int lesser, .int (-5)] m () = Builtin.clamp.run
        [.int 9223372036854775807, .int (-5), .int 9223372036854774784] m () :=
  have apart : ¬Merged 9223372036854775807 9223372036854774784 := by decide
  have merged : Merged 9007199254740993 9007199254740992 := by decide
  have ordered := integers_ordered_unless_merged (.vacant 0 .empty []) ()
  ⟨⟨apart, (ordered.1 _ _ apart).1⟩, ⟨merged, (ordered.2.1 _ _ merged).1⟩,
    (ordered.2.2 9223372036854775807 (-5) 9223372036854774784).2 apart (by decide)⟩

/-- Of two integers that are merged `min` may give the greater and `max` the lesser, another one when
they are exchanged, and `max` of `min` leaves the range that `clamp` keeps to. -/
theorem exists_lesser_passed_over :
    let m : Machine := .vacant 0 .empty []
    Builtin.min.run [.int 9007199254740993, .int 9007199254740992] m () =
      m.reply (.ok (.int 9007199254740993)) () ∧
    Builtin.min.run [.int 9007199254740992, .int 9007199254740993] m () =
      m.reply (.ok (.int 9007199254740992)) () ∧
    Builtin.max.run [.int 9007199254740992, .int 9007199254740993] m () =
      m.reply (.ok (.int 9007199254740992)) () ∧
    Builtin.max.run [.int 9007199254740993, .int 9007199254740992] m () =
      m.reply (.ok (.int 9007199254740993)) () ∧
    Builtin.max.run [.int 9007199254740993, .int 0] m () =
      m.reply (.ok (.int 9007199254740993)) () ∧
    Builtin.clamp.run [.int 9007199254740993, .int 0, .int 9007199254740992] m () =
      m.reply (.ok (.int 9007199254740992)) () :=
  ⟨rfl, rfl, rfl, rfl, rfl, rfl⟩

end TickScript
