import TickScript.Proofs.Machine.Contents

/-!
# How big values are

A tuple keeps a count of its leaves, the values that its full expansion comes to, and is refused if the
count exceeds a limit. The count is kept in a word. As long as no tuple can have more leaves than a word
counts, because the memory holds few items and each of them is a leaf or a tuple within the limit, the count
is exact. Without that it is exact up to multiples of `UInt64.size`.

Objects have one value for each name, and arrays are at most as long as the memory could hold. All of this is
a norm that every program allows (`Norm.allows_ofSizes`). The names of an object stay the same as long as
there is the object, because nothing that is done to a heap changes them (`Moves.names`).
-/

namespace TickScript

/-! ## Leaves -/

mutual

/-- How many values a value comes to when its tuples are fully expanded. -/
def Value.leaves : Value → Nat
  | .tuple _ _ items => leavesOf items
  | _ => 1

/-- How many values the items of a tuple come to. -/
def leavesOf : List Value → Nat
  | [] => 0
  | v :: vs => v.leaves + leavesOf vs

end

/-- The leaves of values are those of the first and those of the others. -/
theorem leavesOf_cons (v : Value) (vs : List Value) : leavesOf (v :: vs) = v.leaves + leavesOf vs := by
  rw [leavesOf]

/-- The limits leave no room for a tuple with more leaves than a word counts. -/
def Limits.CountLeaves (limits : Limits) : Prop :=
  limits.arraySize * max 1 limits.tupleSize < UInt64.size

/-- The counts of the items add up to the count of the tuple, in words. -/
theorem flatTotal_eq_mod {items : List Value} (h : ∀ v ∈ items, v.flatSize = v.leaves % UInt64.size) :
    Value.flatTotal items = leavesOf items % UInt64.size := by
  induction items with
  | nil => rfl
  | cons v items ih =>
    obtain ⟨hv, hitems⟩ := List.forall_mem_cons.1 h
    rw [Value.flatTotal, leavesOf_cons, hv, ih hitems, ← Nat.add_mod]

/-- Values with so many leaves at most have as many times their number. -/
theorem leavesOf_le {items : List Value} {bound : Nat} (h : ∀ v ∈ items, v.leaves ≤ bound) :
    leavesOf items ≤ items.length * bound := by
  induction items with
  | nil =>
    rw [leavesOf]
    exact Nat.zero_le _
  | cons v items ih =>
    obtain ⟨hv, hitems⟩ := List.forall_mem_cons.1 h
    have hothers := ih hitems
    rw [leavesOf_cons, List.length_cons, Nat.add_one_mul]
    omega

/-! ## Sizes within limits -/

/-- The count that a tuple keeps is within its limit, and counts the leaves. -/
structure Measured (limits : Limits) (flat : Nat) (items : List Value) : Prop where
  modulo : flat = leavesOf items % UInt64.size
  within : flat ≤ limits.tupleSize
  exact : limits.CountLeaves → flat = leavesOf items

/-- Tuples, objects and arrays are within the limits. -/
def Norm.ofSizes (limits : Limits) : Norm where
  value
    | .tuple _ flat items => Measured limits flat items
    | _ => True
  body
    | .object names values => values.length = names.length
    | .array _ items => items.length ≤ limits.arraySize
    | _ => True

section Sizes

variable {limits : Limits}

/-- The count that a tuple keeps is that of its leaves, as far as a word of 64 bits goes. -/
theorem flatSize_eq_mod {v : Value} (h : (Norm.ofSizes limits).value v) :
    v.flatSize = v.leaves % UInt64.size := by
  cases v with
  | tuple r flat items =>
    rw [Value.leaves]
    exact h.modulo
  | _ => rfl

/-- Where the leaves of every tuple can be counted, no value has more than a tuple may. -/
theorem leaves_le {v : Value} (h : (Norm.ofSizes limits).value v) (hlimits : limits.CountLeaves) :
    v.leaves ≤ max 1 limits.tupleSize := by
  cases v with
  | tuple r flat items =>
    rw [Value.leaves, ← h.exact hlimits]
    exact le_max_of_le_right h.within
  | _ => exact le_max_left 1 limits.tupleSize

/-- A tuple of items that are within the limits, as it is made. -/
theorem measured_flatTotal {items : List Value} (hitems : ∀ v ∈ items, (Norm.ofSizes limits).value v)
    (hlength : items.length ≤ limits.arraySize) (hsize : Value.flatTotal items ≤ limits.tupleSize) :
    Measured limits (Value.flatTotal items) items := by
  have hmod := flatTotal_eq_mod fun v hv => flatSize_eq_mod (hitems v hv)
  refine ⟨hmod, hsize, fun hlimits => ?_⟩
  have hleaves : leavesOf items < UInt64.size :=
    calc leavesOf items
      _ ≤ items.length * max 1 limits.tupleSize := leavesOf_le fun v hv => leaves_le (hitems v hv) hlimits
      _ ≤ limits.arraySize * max 1 limits.tupleSize := Nat.mul_le_mul_right _ hlength
      _ < UInt64.size := hlimits
  rw [hmod, Nat.mod_eq_of_lt hleaves]

/-- **Every program keeps sizes within the limits.** -/
theorem Norm.allows_ofSizes (image : Image) (shapes : List (List String)) :
    (Norm.ofSizes limits).Allows image shapes limits where
  null := trivial
  int _ := trivial
  float _ := trivial
  literal _ _ _ := trivial
  text _ _ := ⟨trivial, trivial⟩
  tupleBody _ _ := trivial
  tuple _ _ hitems hlength hsize := measured_flatTotal hitems hlength hsize
  objectBody _ _ _ hlength := hlength
  object _ := trivial
  arrayBody _ hlength := hlength
  array _ := trivial
  setMember names values i v hb := by
    show (values.set i v).length = names.length
    rw [List.length_set]
    exact hb
  setItem capacity items i v hb := by
    show (items.set i v).length ≤ limits.arraySize
    rw [List.length_set]
    exact hb
  push capacity items v _ hroom := by
    show (items ++ [v]).length ≤ limits.arraySize
    rw [List.length_append, List.length_singleton]
    omega
  pop capacity items hb := by
    show items.dropLast.length ≤ limits.arraySize
    have hlength : items.length ≤ limits.arraySize := hb
    rw [List.length_dropLast]
    omega

end Sizes

/-! ## Names of objects -/

/-- What is an object after a change was one before, with the same names. -/
theorem Body.Changes.exists_eq_object {b b' : Body} {taken given : List Value} {names : List String}
    {values : List Value} (h : b.Changes taken given b') (hb : b' = .object names values) :
    ∃ old, b = .object names old := by
  cases h with
  | member hi =>
    cases hb
    exact ⟨_, rfl⟩
  | item _ | push | pop => cases hb

/-- If the number ever belongs to an object, the object has these names. -/
structure Heap.Names (h : Heap) (r : Ref) (names : List String) : Prop where
  given : r < h.next
  same : ∀ c ∈ h.cells, c.ref = r → ∀ names' values, c.body = .object names' values → names' = names

namespace Heap.Names

variable {h h' : Heap} {r : Ref} {names : List String}

/-- A heap whose cells were all there, or have a new number. -/
theorem of_cells (hn : h.Names r names) (hnext : h.next ≤ h'.next)
    (hc : ∀ c ∈ h'.cells, c.ref = h.next ∨ ∃ d ∈ h.cells, d.ref = c.ref ∧ d.body = c.body) :
    h'.Names r names := by
  refine ⟨Nat.lt_of_lt_of_le hn.given hnext, fun c hmem href names' values hbody => ?_⟩
  rcases hc c hmem with hnew | ⟨d, hd, hdref, hdbody⟩
  · exact absurd (href.symm.trans hnew) (Nat.ne_of_lt hn.given)
  · exact hn.same d hd (hdref.trans href) names' values (hdbody.trans hbody)

/-- A change that leaves the bodies alone leaves the names of an object alone. -/
theorem modify (hn : h.Names r names) {r' : Ref} {f : Cell → Cell} (href : ∀ c, (f c).ref = c.ref)
    (hbody : ∀ c, (f c).body = c.body) : (h.modify r' f).Names r names := by
  refine hn.of_cells (Nat.le_refl _) fun c hc => .inr ?_
  obtain ⟨d, hd, rfl⟩ := List.mem_map.1 hc
  refine ⟨d, hd, ?_⟩
  split
  · exact ⟨(href d).symm, (hbody d).symm⟩
  · exact ⟨rfl, rfl⟩

/-- No change of an object changes its names. -/
theorem setBody (hn : h.Names r names) (hd : (h.cells.map Cell.ref).Nodup) {r' : Ref} {c : Cell} {b : Body}
    {taken given : List Value} (hc : h.cell? r' = some c) (hb : c.body.Changes taken given b) :
    (h.setBody r' b).Names r names := by
  obtain ⟨as, bs, hs⟩ := Heap.exists_splits hc hd
  cases (Heap.cell?_eq_some hc).2
  refine ⟨?_, fun d hmem href names' values hbody => ?_⟩
  · rw [Heap.setBody_of_cell hc]
    exact hn.given
  · rcases (hs.setBody hc b).mem_iff.1 hmem with rfl | hother
    · obtain ⟨old, hold⟩ := hb.exists_eq_object hbody
      exact hn.same c hs.mem href names' old hold
    · exact hn.same d (hs.mem_iff.2 (.inr hother)) href names' values hbody

end Heap.Names

/-- An object keeps its names over every move. -/
theorem Move.names {s s' : Books} {entries : List Entry} (hm : Move s entries s') (hx : s.Exact) {r : Ref}
    {names : List String} (hn : s.heap.Names r names) : s'.heap.Names r names := by
  cases hm with
  | rearrange _ | plain _ | forget _ => exact hn
  | make cell shows =>
    refine hn.of_cells (Nat.le_succ _) fun c hc => ?_
    rcases List.mem_cons.1 hc with rfl | hc
    · exact .inl rfl
    · exact .inr ⟨c, hc, rfl, rfl⟩
  | @copy h vs v mem =>
    show (h.retain v).Names r names
    unfold Heap.retain
    split
    · exact hn.modify (fun _ => rfl) (fun _ => rfl)
    · exact hn
  | lessen cell found more => exact hn.modify (fun _ => rfl) (fun _ => rfl)
  | free cell found last covered =>
    exact hn.of_cells (Nat.le_refl _) fun c hc => .inr ⟨c, List.mem_of_mem_filter hc, rfl, rfl⟩
  | change found changes => exact hn.setBody hx.distinct found changes

/-- **An object keeps its names**, whatever is done to the heap. Its number is not given to another one. -/
theorem Moves.names {s s' : Books} {entries : List Entry} (hm : Moves s entries s') (hx : s.Exact) {r : Ref}
    {names : List String} (hn : s.heap.Names r names) : s'.heap.Names r names := by
  induction hm with
  | none => exact hn
  | more before move ih => exact move.names (hx.moves before) ih

/-- The names that an object has. -/
theorem Books.Exact.names {s : Books} (hx : s.Exact) {r : Ref} {names : List String} {values : List Value}
    (hb : s.heap.body? r = some (.object names values)) : s.heap.Names r names := by
  obtain ⟨c, hc, hbody⟩ := Heap.body?_eq_some hb
  obtain ⟨hmem, href⟩ := Heap.cell?_eq_some hc
  refine ⟨href ▸ hx.below c hmem, fun d hd hdref names' values' hd' => ?_⟩
  have hsame : d = c := List.inj_on_of_nodup_map hx.distinct hd hmem (hdref.trans href.symm)
  rw [hsame, hbody] at hd'
  cases hd'
  rfl

end TickScript
