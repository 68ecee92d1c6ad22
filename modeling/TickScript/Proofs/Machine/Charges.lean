import TickScript.Proofs.Machine.Metering

/-!
# What a step costs

A step takes one instruction off the tick's budget, and a call of the host takes what its function says,
if that is more. Nothing else is ever charged, and no step touches the program or its limits: `Charged`
says all of this of two machines, and charges add up. The dearest function of the program
(`Image.dearest`) bounds what one step can cost.
-/

namespace TickScript

/-- What the dearest step costs: one instruction, or a call of the dearest function of the host. -/
def Image.dearest (image : Image) : Nat :=
  image.program.builtins.foldr (fun b n => max b.cost.toNat n) 1

/-- Every instruction costs one at least. -/
theorem Image.one_le_dearest (image : Image) : 1 ≤ image.dearest := by
  unfold dearest
  induction image.program.builtins with
  | nil => exact Nat.le_refl 1
  | cons b bs ih => exact Nat.le_trans ih (Nat.le_max_right _ _)

/-- No function of the host costs more than the dearest. -/
theorem Image.cost_le_dearest {image : Image} {b : Signature UInt32}
    (h : b ∈ image.program.builtins) : b.cost.toNat ≤ image.dearest := by
  unfold dearest
  generalize image.program.builtins = builtins at h
  induction builtins with
  | nil => exact nomatch h
  | cons b' bs ih =>
    rcases List.mem_cons.1 h with rfl | hb
    · exact Nat.le_max_left _ _
    · exact Nat.le_trans (ih hb) (Nat.le_max_right _ _)

/-- A cost has 32 bits. -/
theorem Image.dearest_lt (image : Image) : image.dearest < UInt32.size := by
  unfold dearest
  induction image.program.builtins with
  | nil => decide
  | cons b bs ih => exact Nat.max_lt.2 ⟨b.cost.toNat_lt, ih⟩

/-- Whether the turn can go on after a step, at once or when the host has answered. -/
def Status.goesOn : Status → Bool
  | .running | .request _ _ => true
  | _ => false

namespace Machine

/-- The machine runs the same program under the same limits, and has spent so much more. -/
structure Charged (m m' : Machine) (n : Nat) : Prop where
  image : m'.image = m.image
  limits : m'.limits = m.limits
  spent : m'.spent = m.spent + n

namespace Charged

/-- What neither changes program and limits nor spends anything is free of charge. -/
theorem free {m m' : Machine} (hi : m'.image = m.image) (hl : m'.limits = m.limits)
    (hs : m'.spent = m.spent) : Charged m m' 0 :=
  ⟨hi, hl, hs⟩

/-- Charges add up. -/
theorem trans {a b c : Machine} {n n' : Nat} (h : Charged a b n) (h' : Charged b c n') :
    Charged a c (n + n') where
  image := h'.image.trans h.image
  limits := h'.limits.trans h.limits
  spent := by rw [h'.spent, h.spent, Nat.add_assoc]

end Charged

/-! ## Instructions and steps -/

/-- A step costs nothing beyond the instruction itself, unless it calls the host. -/
theorem Comes.charged {m : Machine} {result : Machine × Status} (h : Comes m result) :
    Charged m result.1 0 :=
  .free h.alike.image h.alike.limits h.alike.spent

/-- A call of the host is charged what its function costs beyond the step. -/
theorem Asks.charged {m : Machine} {result : Machine × Status} (h : Asks m result) :
    ∃ n, n + 1 ≤ m.image.dearest ∧ Charged m result.1 n := by
  cases h with
  | @intro _ _ _ _ b _ _ _ _ hb _ =>
    have hone := m.image.one_le_dearest
    have hcost := Image.cost_le_dearest (List.mem_of_getElem? hb)
    exact ⟨b.cost.toNat - 1, by omega, rfl, rfl, rfl⟩

/-- What runs next costs no more than the dearest instruction. -/
theorem charged_execNext (m : Machine) :
    ∃ n, n + 1 ≤ m.image.dearest ∧ Charged m m.execNext.1 n := by
  rcases m.comes_or_asks with h | h
  · exact ⟨0, m.image.one_le_dearest, h.charged⟩
  · exact h.charged

/-- What a step costs: nothing, or at least one instruction and at most what the dearest step costs. In
the second case the budget was not yet spent, and a step after which the turn goes on is such a case. -/
structure Priced (m : Machine) (result : Machine × Status) (n : Nat) : Prop where
  charged : Charged m result.1 n
  le_dearest : n ≤ m.image.dearest
  within : 1 ≤ n → m.spent < m.limits.instructions
  goesOn : result.2.goesOn → 1 ≤ n

/-- A step that ends the turn without running anything is free. -/
theorem Priced.free {m m' : Machine} {status : Status} (h : Charged m m' 0)
    (hs : status.goesOn = false) : Priced m (m', status) 0 where
  charged := h
  le_dearest := Nat.zero_le _
  within h := absurd h (Nat.not_succ_le_zero 0)
  goesOn h := absurd (h.symm.trans hs) (by decide)

/-- Every step has its price. -/
theorem exists_priced_step (m : Machine) : ∃ n, Priced m m.step n := by
  cases m.stepCase with
  | complete _ hs | faulted _ _ hs | unanswered _ hs | unpaid _ _ hs | overfull _ _ _ hs =>
    exact ⟨0, hs ▸ .free (.free rfl rfl rfl) rfl⟩
  | made _ hb _ hs =>
    obtain ⟨n, hn, h⟩ := charged_execNext { m with spent := m.spent + 1 }
    have hspent : m.spent + 1 + n = m.spent + (n + 1) := by omega
    rw [hs]
    exact ⟨n + 1, ⟨h.image, h.limits, h.spent.trans hspent⟩, hn, fun _ => hb,
      fun _ => Nat.le_add_left 1 n⟩

end Machine

end TickScript
