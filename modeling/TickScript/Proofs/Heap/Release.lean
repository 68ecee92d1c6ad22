import TickScript.Heap

/-!
# Giving references back

References may be given back all at once or in parts, as long as the order stays the same.
-/

namespace TickScript.Heap

@[simp] theorem release_nil (h : Heap) : h.release [] = h := by rw [release]

/-- A value that is in no cell has no reference to give back. -/
theorem release_cons_of_none {h : Heap} {v : Value} {vs : List Value} (hv : v.cell? = none) :
    h.release (v :: vs) = h.release vs := by
  rw [release, hv]

/-- Values are dropped one after the other. -/
theorem release_append (h : Heap) (vs vs' : List Value) :
    h.release (vs ++ vs') = (h.release vs).release vs' := by
  fun_induction release h vs with
  | case1 h => rfl
  | case2 h v vs hv ih => rw [List.cons_append, release_cons_of_none hv, ih]
  | case3 h v vs r hv hc ih =>
    rw [List.cons_append, release, hv]
    dsimp only
    split
    · exact ih
    · next h' => exact nomatch hc.symm.trans h'
  | case4 h v vs r hv c hc hle ih =>
    rw [List.cons_append, release, hv]
    dsimp only
    split
    · next h' => exact nomatch hc.symm.trans h'
    · next h' =>
      cases hc.symm.trans h'
      rw [if_pos hle, ← List.append_assoc]
      exact ih
  | case5 h v vs r hv c hc hlt ih =>
    rw [List.cons_append, release, hv]
    dsimp only
    split
    · next h' => exact nomatch hc.symm.trans h'
    · next h' =>
      cases hc.symm.trans h'
      rw [if_neg hlt]
      exact ih

end TickScript.Heap
