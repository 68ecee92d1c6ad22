import TickScript.Proofs.Heap.Release
import Mathlib.Data.Fintype.Order
import Mathlib.Algebra.GroupWithZero.Nat
import Mathlib.Data.List.Nodup
import Mathlib.Data.Set.Finite.List
import Mathlib.Logic.Relation
import Mathlib.Order.WellFounded

/-!
# The heap's accounts

A heap and the references that are held from outside, its roots, make up books. The books are exact
(`Books.Exact`) when every cell counts the references to it that there are, from the roots and from other
cells, when every reference is to a live cell, and when the bytes in use are the charges of the live
cells.

All that happens to a heap is made of few moves (`Move`): a cell is made, a reference is copied or given
back, the last reference goes and the cell with it, a body changes. Each move keeps the books exact
(`Books.Exact.move`). The moves that change the bytes in use write what they add and take into a ledger,
and the ledger has for every cell what was added when it was made and when it grew, and after that the
sum of it, taken off once, when the cell has gone (`Recorded`).
-/

namespace TickScript

/-! ## References -/

/-- How many of the values refer to a cell. -/
def references (r : Ref) (vs : List Value) : Nat := vs.countP fun v => v.cell? = some r

/-- One more value refers to its cell once more. -/
theorem references_cons (r : Ref) (v : Value) (vs : List Value) :
    references r (v :: vs) = references r vs + if v.cell? = some r then 1 else 0 := by
  unfold references
  rw [List.countP_cons]
  simp

/-- The order of the values does not matter. -/
theorem references_perm {vs ws : List Value} (h : vs.Perm ws) (r : Ref) :
    references r vs = references r ws := h.countP_eq _

/-- A cell that is referred to is that of one of the values. -/
theorem references_pos {r : Ref} {vs : List Value} :
    0 < references r vs ↔ ∃ v ∈ vs, v.cell? = some r := by
  unfold references
  rw [List.countP_pos_iff]
  simp

/-- The value may stand for a cell with that body. A text and a tuple hold what the cell holds. -/
def Value.Shows : Value → Body → Prop
  | .text _ s, b => b = .text s
  | .tuple _ _ items, b => b = .tuple items
  | .object _, b => ∃ names values, b = .object names values
  | .array _, b => ∃ capacity items, b = .array capacity items
  | _, _ => False

namespace Heap

/-- The values that cells hold. -/
def held (h : Heap) : List Value := h.cells.flatMap fun c => c.body.held

/-- The charges of the live cells. -/
def charges (h : Heap) : Nat := (h.cells.map fun c => c.body.charge).sum

/-- The number belongs to a live cell. -/
def Live (h : Heap) (r : Ref) : Prop := ∃ c ∈ h.cells, c.ref = r

/-- The cell that is found is one of the heap, under its own reference. -/
theorem cell?_eq_some {h : Heap} {r : Ref} {c : Cell} (hc : h.cell? r = some c) :
    c ∈ h.cells ∧ c.ref = r := by
  unfold cell? at hc
  exact ⟨List.mem_of_find?_eq_some hc, by simpa using List.find?_some hc⟩

/-- A live reference has a cell. -/
theorem exists_cell? {h : Heap} {r : Ref} (hr : h.Live r) : ∃ c, h.cell? r = some c := by
  obtain ⟨c, hc, he⟩ := hr
  cases hf : h.cell? r with
  | some d => exact ⟨d, rfl⟩
  | none =>
    unfold cell? at hf
    have hne := List.find?_eq_none.1 hf c hc
    simp [he] at hne

/-- A body that is found is that of a cell. -/
theorem body?_eq_some {h : Heap} {r : Ref} {b : Body} (hb : h.body? r = some b) :
    ∃ c, h.cell? r = some c ∧ c.body = b := Option.map_eq_some_iff.1 hb

/-- What a cell holds is among what cells hold. -/
theorem mem_held {h : Heap} {r : Ref} {b : Body} {v : Value} (hb : h.body? r = some b)
    (hv : v ∈ b.held) : v ∈ h.held := by
  obtain ⟨c, hc, rfl⟩ := body?_eq_some hb
  exact List.mem_flatMap.2 ⟨c, (cell?_eq_some hc).1, hv⟩

/-- A cell stands alone among the others. -/
structure Splits (h : Heap) (as : List Cell) (c : Cell) (bs : List Cell) : Prop where
  cells : h.cells = as ++ c :: bs
  others : ∀ d ∈ as ++ bs, d.ref ≠ c.ref

/-- A heap is a cell and those before and behind it. -/
theorem exists_splits {h : Heap} {r : Ref} {c : Cell} (hc : h.cell? r = some c)
    (hd : (h.cells.map Cell.ref).Nodup) : ∃ as bs, h.Splits as c bs := by
  obtain ⟨as, bs, hsplit⟩ := List.append_of_mem (cell?_eq_some hc).1
  refine ⟨as, bs, hsplit, ?_⟩
  intro d hd' he
  rw [hsplit, List.map_append, List.map_cons, List.nodup_middle, ← List.map_append] at hd
  exact (List.nodup_cons.1 hd).1 (List.mem_map.2 ⟨d, hd', he⟩)

namespace Splits

variable {h : Heap} {as bs : List Cell} {c : Cell}

theorem mem (hs : h.Splits as c bs) : c ∈ h.cells := by
  rw [hs.cells]
  exact List.mem_append_right _ List.mem_cons_self

theorem mem_iff (hs : h.Splits as c bs) {d : Cell} : d ∈ h.cells ↔ d = c ∨ d ∈ as ++ bs := by
  rw [hs.cells]
  simp only [List.mem_append, List.mem_cons]
  tauto

/-- The values that the heap holds are those of the cell and those of the others. -/
theorem held_perm (hs : h.Splits as c bs) :
    h.held.Perm (c.body.held ++ (as ++ bs).flatMap fun d => d.body.held) := by
  unfold held
  rw [hs.cells]
  simp only [List.flatMap_append, List.flatMap_cons]
  exact List.perm_append_comm_assoc _ _ _

/-- The charges of a heap are that of the cell and those of the others. -/
theorem charges_eq (hs : h.Splits as c bs) :
    h.charges = c.body.charge + ((as ++ bs).map fun d => d.body.charge).sum := by
  unfold charges
  rw [hs.cells]
  simp only [List.map_append, List.map_cons, List.sum_append, List.sum_cons]
  omega

/-- Changing the cell leaves the others as they are. -/
theorem modify (hs : h.Splits as c bs) {f : Cell → Cell} (hf : (f c).ref = c.ref) :
    (h.modify c.ref f).Splits as (f c) bs := by
  have hsame {ds : List Cell} (hds : ∀ d ∈ ds, d.ref ≠ c.ref) :
      ds.map (fun d => if d.ref == c.ref then f d else d) = ds := by
    rw [List.map_congr_left (g := id), List.map_id]
    intro d hd
    simp [hds d hd]
  have ho := List.forall_mem_append.1 hs.others
  refine ⟨?_, hf.symm ▸ hs.others⟩
  simp only [Heap.modify, hs.cells, List.map_append, List.map_cons, hsame ho.1, hsame ho.2, beq_self_eq_true,
    if_true]

/-- Without the cell the others are left. -/
theorem cells_free (hs : h.Splits as c bs) : (h.free c).cells = as ++ bs := by
  have hsame {ds : List Cell} (hds : ∀ d ∈ ds, d.ref ≠ c.ref) :
      ds.filter (fun d => d.ref != c.ref) = ds := by
    refine List.filter_eq_self.2 ?_
    intro d hd
    simp [hds d hd]
  have ho := List.forall_mem_append.1 hs.others
  simp only [Heap.free, hs.cells, List.filter_append, List.filter_cons, hsame ho.1, hsame ho.2]
  simp

end Splits

end Heap

/-! ## Books -/

/-- A heap and the references to its cells that are held outside of it. -/
structure Books where
  heap : Heap
  roots : List Value

namespace Books

/-- All references, from outside and from cells. -/
def all (s : Books) : List Value := s.roots ++ s.heap.held

/-- The books are exact. -/
structure Exact (s : Books) : Prop where
  distinct : (s.heap.cells.map Cell.ref).Nodup
  below : ∀ c ∈ s.heap.cells, c.ref < s.heap.next
  counted : ∀ c ∈ s.heap.cells, c.count = references c.ref s.all ∧ 0 < c.count
  shown : ∀ v ∈ s.all, ∀ r, v.cell? = some r → ∃ c ∈ s.heap.cells, c.ref = r ∧ v.Shows c.body
  used : s.heap.used = s.heap.charges

end Books

namespace Books

variable {h : Heap} {vs : List Value}

namespace Exact

/-- Exactness depends on the references only. -/
theorem of_references {ws : List Value} (hx : Exact ⟨h, vs⟩)
    (hr : ∀ r, references r ws = references r vs) (hm : ∀ w ∈ ws, w.cell? ≠ none → w ∈ vs) :
    Exact ⟨h, ws⟩ := by
  have hall (r : Ref) : references r (all ⟨h, ws⟩) = references r (all ⟨h, vs⟩) := by
    have hr := hr r
    unfold references at hr ⊢
    simp only [all, List.countP_append, hr]
  refine ⟨hx.distinct, hx.below, ?_, ?_, hx.used⟩
  · intro c hc
    rw [hall]
    exact hx.counted c hc
  · intro w hw r hr
    refine hx.shown w ?_ r hr
    rcases List.mem_append.1 hw with hw | hw
    · exact List.mem_append_left _ (hm w hw (by simp [hr]))
    · exact List.mem_append_right _ hw

/-- Accounts are exact whatever the order of the values is. -/
theorem perm {ws : List Value} (hx : Exact ⟨h, vs⟩) (hp : vs.Perm ws) : Exact ⟨h, ws⟩ :=
  hx.of_references (fun r => (references_perm hp r).symm) fun _ hw _ => hp.mem_iff.2 hw

/-- A value without a cell is on no account. -/
theorem plain {v : Value} (hx : Exact ⟨h, vs⟩) (hv : v.cell? = none) : Exact ⟨h, v :: vs⟩ := by
  refine hx.of_references ?_ ?_
  · intro r
    simp [references_cons, hv]
  · intro w hw hc
    rcases List.mem_cons.1 hw with rfl | hw
    · exact absurd hv hc
    · exact hw

theorem forget {v : Value} (hx : Exact ⟨h, v :: vs⟩) (hv : v.cell? = none) : Exact ⟨h, vs⟩ := by
  refine hx.of_references ?_ ?_
  · intro r
    simp [references_cons, hv]
  · intro w hw _
    exact List.mem_cons_of_mem _ hw

/-- Nothing refers to a cell that has not been made. -/
theorem references_next (hx : Exact ⟨h, vs⟩) : references h.next (all ⟨h, vs⟩) = 0 := by
  refine Nat.eq_zero_of_not_pos ?_
  intro hpos
  obtain ⟨v, hv, hcell⟩ := references_pos.1 hpos
  obtain ⟨c, hc, he, -⟩ := hx.shown v hv _ hcell
  exact absurd he (Nat.ne_of_lt (hx.below c hc))

/-- A new cell takes over the values that it holds, and is held by the new value. -/
theorem make {v : Value} {b : Body} (hx : Exact ⟨h, b.held ++ vs⟩) (hv : v.cell? = some h.next)
    (hs : v.Shows b) : Exact ⟨(h.alloc b).2, v :: vs⟩ := by
  have hp : (all ⟨(h.alloc b).2, v :: vs⟩).Perm (v :: all ⟨h, b.held ++ vs⟩) := by
    simp only [all, Heap.alloc, Heap.held, List.flatMap_cons, List.cons_append, List.append_assoc]
    exact (List.perm_append_comm_assoc _ _ _).cons v
  have href (r : Ref) : references r (all ⟨(h.alloc b).2, v :: vs⟩) =
      references r (all ⟨h, b.held ++ vs⟩) + if h.next = r then 1 else 0 := by
    simp [references_perm hp, references_cons, hv]
  refine ⟨?_, ?_, ?_, ?_, ?_⟩
  · simp only [Heap.alloc, List.map_cons, List.nodup_cons]
    refine ⟨?_, hx.distinct⟩
    intro hmem
    obtain ⟨c, hc, he⟩ := List.mem_map.1 hmem
    exact absurd he (Nat.ne_of_lt (hx.below c hc))
  · intro c hc
    rcases List.mem_cons.1 hc with rfl | hc
    · exact Nat.lt_succ_self _
    · exact Nat.lt_succ_of_lt (hx.below c hc)
  · intro c hc
    rw [href]
    rcases List.mem_cons.1 hc with rfl | hc
    · simp [hx.references_next]
    · rw [if_neg (Nat.ne_of_gt (hx.below c hc))]
      exact hx.counted c hc
  · intro w hw r hr
    rcases List.mem_cons.1 (hp.mem_iff.1 hw) with rfl | hw
    · cases hv.symm.trans hr
      exact ⟨_, List.mem_cons_self, rfl, hs⟩
    · obtain ⟨c, hc, he⟩ := hx.shown w hw r hr
      exact ⟨c, List.mem_cons_of_mem _ hc, he⟩
  · have hu : h.used = h.charges := hx.used
    simp only [Heap.alloc, Heap.charges, List.map_cons, List.sum_cons] at hu ⊢
    omega

/-- A cell is counted anew when references to it come or go. -/
theorem recount {ws : List Value} {as bs : List Cell} {c : Cell} (count : Nat → Nat)
    (hx : Exact ⟨h, vs⟩) (hs : h.Splits as c bs)
    (hc : count c.count = references c.ref (all ⟨h, ws⟩) ∧ 0 < count c.count)
    (ho : ∀ d ∈ as ++ bs, references d.ref (all ⟨h, ws⟩) = references d.ref (all ⟨h, vs⟩))
    (hm : ∀ w ∈ ws, w ∈ all ⟨h, vs⟩) :
    Exact ⟨h.modify c.ref fun c => { c with count := count c.count }, ws⟩ := by
  have hs' := hs.modify (f := fun c => { c with count := count c.count }) rfl
  have hheld : (h.modify c.ref fun c => { c with count := count c.count }).held = h.held := by
    simp only [Heap.held, hs'.cells, hs.cells, List.flatMap_append, List.flatMap_cons]
  -- Counting leaves what the heap holds as it is.
  have hall : all ⟨h.modify c.ref fun c => { c with count := count c.count }, ws⟩ = all ⟨h, ws⟩ := by
    simp only [all, hheld]
  have hrefs : (h.modify c.ref fun c => { c with count := count c.count }).cells.map Cell.ref =
      h.cells.map Cell.ref := by
    simp only [hs'.cells, hs.cells, List.map_append, List.map_cons]
  refine ⟨?_, ?_, ?_, ?_, ?_⟩
  · rw [hrefs]
    exact hx.distinct
  · intro d hd
    obtain ⟨e, he, hed⟩ := List.mem_map.1 (hrefs ▸ List.mem_map_of_mem hd)
    exact hed ▸ hx.below e he
  · intro d hd
    rw [hall]
    rcases hs'.mem_iff.1 hd with rfl | hd
    · exact hc
    · rw [ho d hd]
      exact hx.counted d (hs.mem_iff.2 (.inr hd))
  · intro w hw r hr
    rw [hall] at hw
    have hw' : w ∈ all ⟨h, vs⟩ := by
      rcases List.mem_append.1 hw with hw | hw
      · exact hm w hw
      · exact List.mem_append_right _ hw
    obtain ⟨d, hd, he, hshows⟩ := hx.shown w hw' r hr
    rcases hs.mem_iff.1 hd with rfl | hd
    · exact ⟨_, hs'.mem, he, hshows⟩
    · exact ⟨d, hs'.mem_iff.2 (.inr hd), he, hshows⟩
  · have hu : h.used = h.charges := hx.used
    rw [hs.charges_eq] at hu
    exact hu.trans hs'.charges_eq.symm

/-- A copy of a value that is held counts for one more reference. -/
theorem copy {v : Value} (hx : Exact ⟨h, vs⟩) (hv : v ∈ all ⟨h, vs⟩) : Exact ⟨h.retain v, v :: vs⟩ := by
  unfold Heap.retain
  split
  · next r hr =>
    obtain ⟨c, hc⟩ := Heap.exists_cell? (h := h) (r := r) (by
      obtain ⟨c, hc, he, -⟩ := hx.shown v hv r hr
      exact ⟨c, hc, he⟩)
    obtain ⟨as, bs, hs⟩ := Heap.exists_splits hc hx.distinct
    cases (Heap.cell?_eq_some hc).2
    have href (r : Ref) : references r (all ⟨h, v :: vs⟩) =
        references r (all ⟨h, vs⟩) + if c.ref = r then 1 else 0 := by
      simp [all, references_cons, hr]
    refine hx.recount (fun n => n + 1) hs ?_ ?_ ?_
    · rw [href, if_pos rfl, (hx.counted c hs.mem).1]
      exact ⟨rfl, Nat.succ_pos _⟩
    · intro d hd
      rw [href, if_neg (Ne.symm (hs.others d hd)), Nat.add_zero]
    · intro w hw
      rcases List.mem_cons.1 hw with rfl | hw
      · exact hv
      · exact List.mem_append_left _ hw
  · next hr => exact hx.plain hr

/-- A value that is dropped while others hold its cell counts for one less. -/
theorem lessen {v : Value} {r : Ref} {c : Cell} (hx : Exact ⟨h, v :: vs⟩) (hv : v.cell? = some r)
    (hc : h.cell? r = some c) (hn : 1 < c.count) :
    Exact ⟨h.modify r fun c => { c with count := c.count - 1 }, vs⟩ := by
  obtain ⟨as, bs, hs⟩ := Heap.exists_splits hc hx.distinct
  cases (Heap.cell?_eq_some hc).2
  have href (r : Ref) : references r (all ⟨h, v :: vs⟩) =
      references r (all ⟨h, vs⟩) + if c.ref = r then 1 else 0 := by
    simp [all, references_cons, hv]
  refine hx.recount (fun n => n - 1) hs ?_ ?_ ?_
  · have hcount := (hx.counted c hs.mem).1
    rw [href, if_pos rfl] at hcount
    omega
  · intro d hd
    rw [href, if_neg (Ne.symm (hs.others d hd)), Nat.add_zero]
  · intro w hw
    exact List.mem_append_left _ (List.mem_cons_of_mem _ hw)

/-- What refers to a cell with one reference is that reference. -/
theorem free {v : Value} {r : Ref} {c : Cell} (hx : Exact ⟨h, v :: vs⟩) (hv : v.cell? = some r)
    (hc : h.cell? r = some c) (hn : c.count ≤ 1) : Exact ⟨h.free c, c.body.held ++ vs⟩ := by
  obtain ⟨as, bs, hs⟩ := Heap.exists_splits hc hx.distinct
  cases (Heap.cell?_eq_some hc).2
  have hp : (all ⟨h, v :: vs⟩).Perm (v :: all ⟨h.free c, c.body.held ++ vs⟩) := by
    simp only [all, List.cons_append]
    refine List.Perm.cons v ((hs.held_perm.append_left vs).trans ?_)
    simp only [Heap.held, hs.cells_free, List.append_assoc]
    exact List.perm_append_comm_assoc _ _ _
  have href (r : Ref) : references r (all ⟨h, v :: vs⟩) =
      references r (all ⟨h.free c, c.body.held ++ vs⟩) + if c.ref = r then 1 else 0 := by
    simp [references_perm hp, references_cons, hv]
  -- The value was the last reference, so nothing else shows the cell, not even what it holds.
  have hgone : references c.ref (all ⟨h.free c, c.body.held ++ vs⟩) = 0 := by
    have hcount := (hx.counted c hs.mem).1
    rw [href, if_pos rfl] at hcount
    omega
  have hmem (d : Cell) (hd : d ∈ (h.free c).cells) : d ∈ h.cells ∧ d.ref ≠ c.ref := by
    rw [hs.cells_free] at hd
    exact ⟨hs.mem_iff.2 (.inr hd), hs.others d hd⟩
  refine ⟨?_, ?_, ?_, ?_, ?_⟩
  · exact hx.distinct.sublist (List.filter_sublist.map _)
  · exact fun d hd => hx.below d (hmem d hd).1
  · intro d hd
    obtain ⟨hd, hne⟩ := hmem d hd
    have hcount := hx.counted d hd
    rw [href, if_neg (Ne.symm hne), Nat.add_zero] at hcount
    exact hcount
  · intro w hw r hr
    obtain ⟨d, hd, he, hshows⟩ := hx.shown w (hp.mem_iff.2 (List.mem_cons_of_mem _ hw)) r hr
    have hne : d.ref ≠ c.ref := by
      intro hsame
      have hpos := references_pos.2 ⟨w, hw, hr⟩
      rw [← he, hsame, hgone] at hpos
      exact absurd hpos (Nat.lt_irrefl 0)
    refine ⟨d, ?_, he, hshows⟩
    rw [hs.cells_free]
    rcases hs.mem_iff.1 hd with rfl | hd
    · exact absurd rfl hne
    · exact hd
  · have hu : h.used = h.charges := hx.used
    rw [hs.charges_eq] at hu
    have hcharges : (h.free c).charges = ((as ++ bs).map fun d => d.body.charge).sum := by
      simp only [Heap.charges, hs.cells_free]
    refine Eq.trans ?_ hcharges.symm
    simp only [Heap.free, hu, Nat.add_sub_cancel_left]

end Exact

end Books

/-! ## Changes of bodies -/

/-- How the body of an object or an array changes, with the references that it takes over and those that it
gives up. An array that is full when an item is pushed gets more room, and none gets less. -/
inductive Body.Changes : Body → List Value → List Value → Body → Prop
  | member {names : List String} {values : List Value} {i : Nat} {v old : Value}
      (h : values[i]? = some old) :
      Changes (.object names values) [v] [old] (.object names (values.set i v))
  | item {capacity : Nat} {items : List Value} {i : Nat} {v old : Value} (h : items[i]? = some old) :
      Changes (.array capacity items) [v] [old] (.array capacity (items.set i v))
  | push {capacity : Nat} {items : List Value} {v : Value} :
      Changes (.array capacity items) [v] []
        (.array (if items.length < capacity then capacity else Heap.grownCapacity capacity) (items ++ [v]))
  | pop {capacity : Nat} {items : List Value} {v : Value} :
      Changes (.array capacity (items ++ [v])) [] [v] (.array capacity items)

namespace Body.Changes

variable {b b' : Body} {taken given : List Value}

/-- Where a value is replaced, the new one comes in and the old one goes out. -/
theorem perm_set {vs : List Value} {i : Nat} {old : Value} (h : vs[i]? = some old) (v : Value) :
    (v :: vs).Perm (old :: vs.set i v) := by
  induction vs generalizing i with
  | nil => exact nomatch h
  | cons w vs ih =>
    cases i with
    | zero =>
      cases h
      exact .swap _ _ _
    | succ i =>
      rw [List.set_cons_succ]
      calc (v :: w :: vs).Perm (w :: v :: vs) := .swap _ _ _
        _ |>.Perm (w :: old :: vs.set i v) := (ih h).cons w
        _ |>.Perm (old :: w :: vs.set i v) := .swap _ _ _

/-- No reference is lost. -/
theorem perm (h : b.Changes taken given b') : (taken ++ b.held).Perm (given ++ b'.held) := by
  cases h with
  | member h => exact perm_set h _
  | item h => exact perm_set h _
  | push => exact (List.perm_append_singleton _ _).symm
  | pop => exact List.perm_append_singleton _ _

/-- The cell stays what it was. -/
theorem shows (h : b.Changes taken given b') {v : Value} (hv : v.Shows b) : v.Shows b' := by
  cases v with
  | null | int _ | float _ => exact hv.elim
  | text _ _ | tuple _ _ _ =>
    cases hv
    exact nomatch h
  | object _ =>
    obtain ⟨names, values, rfl⟩ := hv
    cases h
    exact ⟨names, _, rfl⟩
  | array _ =>
    obtain ⟨capacity, items, rfl⟩ := hv
    cases h <;> exact ⟨_, _, rfl⟩

/-- No change gives back what was charged. -/
theorem charge_le (h : b.Changes taken given b') : b.charge ≤ b'.charge := by
  cases h with
  | member => simp [Body.charge]
  | item => exact Nat.le_refl _
  | pop => exact Nat.le_refl _
  | @push capacity items v =>
    unfold Body.charge
    have hle : capacity ≤ if items.length < capacity then capacity else Heap.grownCapacity capacity := by
      unfold Heap.grownCapacity
      split <;> omega
    exact Nat.add_le_add_left (Nat.mul_le_mul_left _ hle) _

end Body.Changes

/-- Another body changes its cell, and how much of the heap is used. -/
theorem Heap.setBody_of_cell {h : Heap} {r : Ref} {c : Cell} (hc : h.cell? r = some c) (b : Body) :
    h.setBody r b = { h.modify r fun c => { c with body := b } with
      used := h.used + b.charge - c.body.charge } := by
  unfold setBody body?
  rw [hc]
  rfl

/-- A cell with a changed body is among the same others. -/
theorem Heap.Splits.setBody {h : Heap} {as bs : List Cell} {c : Cell} (hs : h.Splits as c bs)
    (hc : h.cell? c.ref = some c) (b : Body) :
    (h.setBody c.ref b).Splits as { c with body := b } bs := by
  obtain ⟨hcells, hothers⟩ := hs.modify (f := fun c => { c with body := b }) rfl
  rw [setBody_of_cell hc]
  exact ⟨hcells, hothers⟩

/-- Parts of two lists that have the same values may be put together crosswise. -/
theorem perm_exchange {as bs cs ds : List Value} (h : (as ++ bs).Perm (cs ++ ds)) (xs ys : List Value) :
    (as ++ xs ++ (bs ++ ys)).Perm (cs ++ xs ++ (ds ++ ys)) := by
  have hcomm (us ws : List Value) : (us ++ xs ++ (ws ++ ys)).Perm (us ++ ws ++ (xs ++ ys)) := by
    simp only [List.append_assoc]
    exact (List.perm_append_comm_assoc _ _ _).append_left us
  exact (hcomm as bs).trans ((h.append_right _).trans (hcomm cs ds).symm)

/-- A change keeps the books exact when the heap takes over what the body takes over. -/
theorem Books.Exact.change {h : Heap} {vs taken given : List Value} {r : Ref} {c : Cell} {b : Body}
    (hx : Exact ⟨h, taken ++ vs⟩) (hc : h.cell? r = some c) (hb : c.body.Changes taken given b) :
    Exact ⟨h.setBody r b, given ++ vs⟩ := by
  obtain ⟨as, bs, hs⟩ := Heap.exists_splits hc hx.distinct
  cases (Heap.cell?_eq_some hc).2
  have hs' := hs.setBody hc b
  have hp : (all ⟨h, taken ++ vs⟩).Perm (all ⟨h.setBody c.ref b, given ++ vs⟩) :=
    (hs.held_perm.append_left _).trans
      ((perm_exchange hb.perm vs _).trans (hs'.held_perm.append_left _).symm)
  have hrefs : (h.setBody c.ref b).cells.map Cell.ref = h.cells.map Cell.ref := by
    simp only [hs'.cells, hs.cells, List.map_append, List.map_cons]
  have hnext : (h.setBody c.ref b).next = h.next := by
    rw [Heap.setBody_of_cell hc]
    rfl
  refine ⟨?_, ?_, ?_, ?_, ?_⟩
  · rw [hrefs]
    exact hx.distinct
  · intro d hd
    obtain ⟨e, he, hed⟩ := List.mem_map.1 (hrefs ▸ List.mem_map_of_mem hd)
    rw [← hed, hnext]
    exact hx.below e he
  · intro d hd
    rw [← references_perm hp]
    rcases hs'.mem_iff.1 hd with rfl | hd
    · exact hx.counted c hs.mem
    · exact hx.counted d (hs.mem_iff.2 (.inr hd))
  · intro w hw r hr
    obtain ⟨d, hd, he, hshows⟩ := hx.shown w (hp.mem_iff.2 hw) r hr
    rcases hs.mem_iff.1 hd with rfl | hd
    · exact ⟨_, hs'.mem, he, hb.shows hshows⟩
    · exact ⟨d, hs'.mem_iff.2 (.inr hd), he, hshows⟩
  · have hu : h.used = h.charges := hx.used
    have hu' : (h.setBody c.ref b).used = h.used + b.charge - c.body.charge := by
      rw [Heap.setBody_of_cell hc]
    rw [hs.charges_eq] at hu
    calc (h.setBody c.ref b).used = h.used + b.charge - c.body.charge := hu'
      _ = b.charge + ((as ++ bs).map fun d => d.body.charge).sum := by omega
      _ = (h.setBody c.ref b).charges := hs'.charges_eq.symm

/-! ## Moves and the ledger -/

/-- What the ledger says of a cell: the bytes added when it was made, those added when it grew, and those
taken off when it went. -/
inductive Entry where
  | made (r : Ref) (n : Nat)
  | grown (r : Ref) (n : Nat)
  | gone (r : Ref) (n : Nat)
deriving DecidableEq

namespace Entry

/-- The cell that the entry is about. -/
def ref : Entry → Ref
  | made r _ | grown r _ | gone r _ => r

/-- The bytes that the entry adds. -/
def added : Entry → Nat
  | made _ n | grown _ n => n
  | gone _ _ => 0

/-- The bytes that the entry takes off. -/
def taken : Entry → Nat
  | made _ _ | grown _ _ => 0
  | gone _ n => n

end Entry

/-- One thing that happens to a heap and the references to it, with what it writes into the ledger. A cell
takes over the references that it holds, and leaves them when it goes. Bytes are taken off only where there
are as many. -/
inductive Move : Books → List Entry → Books → Prop
  | rearrange {h : Heap} {vs ws : List Value} (perm : vs.Perm ws) : Move ⟨h, vs⟩ [] ⟨h, ws⟩
  | plain {h : Heap} {vs : List Value} {v : Value} (cell : v.cell? = none) : Move ⟨h, vs⟩ [] ⟨h, v :: vs⟩
  | forget {h : Heap} {vs : List Value} {v : Value} (cell : v.cell? = none) : Move ⟨h, v :: vs⟩ [] ⟨h, vs⟩
  | make {h : Heap} {vs : List Value} {v : Value} {b : Body} (cell : v.cell? = some h.next)
      (shows : v.Shows b) :
      Move ⟨h, b.held ++ vs⟩ [.made h.next b.charge] ⟨(h.alloc b).2, v :: vs⟩
  | copy {h : Heap} {vs : List Value} {v : Value} (mem : v ∈ vs ++ h.held) :
      Move ⟨h, vs⟩ [] ⟨h.retain v, v :: vs⟩
  | lessen {h : Heap} {vs : List Value} {v : Value} {r : Ref} {c : Cell} (cell : v.cell? = some r)
      (found : h.cell? r = some c) (more : 1 < c.count) :
      Move ⟨h, v :: vs⟩ [] ⟨h.modify r fun c => { c with count := c.count - 1 }, vs⟩
  | free {h : Heap} {vs : List Value} {v : Value} {r : Ref} {c : Cell} (cell : v.cell? = some r)
      (found : h.cell? r = some c) (last : c.count ≤ 1) (covered : c.body.charge ≤ h.used) :
      Move ⟨h, v :: vs⟩ [.gone r c.body.charge] ⟨h.free c, c.body.held ++ vs⟩
  | change {h : Heap} {vs taken given : List Value} {r : Ref} {c : Cell} {b : Body}
      (found : h.cell? r = some c) (changes : c.body.Changes taken given b) :
      Move ⟨h, taken ++ vs⟩ [.grown r (b.charge - c.body.charge)] ⟨h.setBody r b, given ++ vs⟩

/-- **A move keeps the books exact.** -/
theorem Books.Exact.move {s s' : Books} {entries : List Entry} (hx : s.Exact) (hm : Move s entries s') :
    s'.Exact := by
  cases hm with
  | rearrange perm => exact hx.perm perm
  | plain cell => exact hx.plain cell
  | forget cell => exact hx.forget cell
  | make cell shows => exact hx.make cell shows
  | copy mem => exact hx.copy mem
  | lessen cell found more => exact hx.lessen cell found more
  | free cell found last _ => exact hx.free cell found last
  | change found changes => exact hx.change found changes

/-- Moves one after the other, and all that they write. -/
inductive Moves (s : Books) : List Entry → Books → Prop
  | none : Moves s [] s
  | more {s' s'' : Books} {entries entries' : List Entry} (before : Moves s entries s')
      (move : Move s' entries' s'') : Moves s (entries ++ entries') s''

/-- Accounts stay exact over any number of moves. -/
theorem Books.Exact.moves {s s' : Books} {entries : List Entry} (hx : s.Exact)
    (hm : Moves s entries s') : s'.Exact := by
  induction hm with
  | none => exact hx
  | more _ move ih => exact ih.move move

/-- What the ledger says of a heap: the bytes in use are those added and not taken off, and there were as
many whenever some were taken off. For a live cell, the bytes that were added are its charge. For a cell
that has gone, the bytes that were added have been taken off, once. -/
structure Recorded (ledger : List Entry) (h : Heap) : Prop where
  balance : h.used + (ledger.map Entry.taken).sum = (ledger.map Entry.added).sum
  covered : ∀ before r n after, ledger = before ++ .gone r n :: after →
    n + (before.map Entry.taken).sum ≤ (before.map Entry.added).sum
  live : ∀ c ∈ h.cells, ∃ (n : Nat) (ns : List Nat),
    ledger.filter (·.ref = c.ref) = .made c.ref n :: ns.map (.grown c.ref) ∧ n + ns.sum = c.body.charge
  gone : ∀ r < h.next, ¬ h.Live r → ∃ (n : Nat) (ns : List Nat),
    ledger.filter (·.ref = r) = .made r n :: (ns.map (.grown r) ++ [.gone r (n + ns.sum)])
  known : ∀ e ∈ ledger, e.ref < h.next

/-- Nothing is recorded of a heap without cells. -/
theorem recorded_empty : Recorded [] .empty where
  balance := rfl
  covered := by simp
  live := fun c hc => nomatch hc
  gone := fun r hr => absurd hr (Nat.not_lt_zero r)
  known := fun e he => nomatch he

namespace Recorded

variable {ledger : List Entry} {h : Heap}

/-- The ledger says nothing of the references to cells. -/
theorem of_charges {h' : Heap} (hr : Recorded ledger h) (hu : h'.used = h.used) (hn : h'.next = h.next)
    (hc : h'.cells.map (fun c => (c.ref, c.body.charge)) = h.cells.map fun c => (c.ref, c.body.charge)) :
    Recorded ledger h' := by
  have hmem {r : Ref} {n : Nat} : (∃ c ∈ h'.cells, c.ref = r ∧ c.body.charge = n) ↔
      ∃ c ∈ h.cells, c.ref = r ∧ c.body.charge = n := by
    have hiff : (r, n) ∈ h'.cells.map (fun c => (c.ref, c.body.charge)) ↔
        (r, n) ∈ h.cells.map fun c => (c.ref, c.body.charge) := by rw [hc]
    simpa using hiff
  refine ⟨hu ▸ hr.balance, hr.covered, ?_, ?_, hn ▸ hr.known⟩
  · intro c hc
    obtain ⟨d, hd, href, hcharge⟩ := hmem.1 ⟨c, hc, rfl, rfl⟩
    rw [← href, ← hcharge]
    exact hr.live d hd
  · intro r hlt hdead
    refine hr.gone r (hn ▸ hlt) ?_
    rintro ⟨c, hc, rfl⟩
    obtain ⟨d, hd, href, -⟩ := hmem.2 ⟨c, hc, rfl, rfl⟩
    exact hdead ⟨d, hd, href⟩

/-- What goes was there: an entry that takes less than the heap uses is covered by those before it. -/
theorem covered_snoc {e : Entry} (hr : Recorded ledger h)
    (he : ∀ r n, e = .gone r n → n ≤ h.used) (before : List Entry) (r : Ref) (n : Nat)
    (after : List Entry) (heq : ledger ++ [e] = before ++ .gone r n :: after) :
    n + (before.map Entry.taken).sum ≤ (before.map Entry.added).sum := by
  rcases List.eq_nil_or_concat after with rfl | ⟨after, last, rfl⟩
  · obtain ⟨rfl, hlast⟩ := List.append_inj' heq rfl
    have hle := he r n (List.cons.inj hlast).1
    have hbalance := hr.balance
    omega
  · rw [List.concat_eq_append, ← List.cons_append, ← List.append_assoc] at heq
    exact hr.covered before r n after (List.append_inj' heq rfl).1

/-- A new entry of a cell comes behind the others of the cell. -/
theorem filter_snoc_of_eq {e : Entry} {r : Ref} {entries : List Entry}
    (h : ledger.filter (·.ref = r) = entries) (he : e.ref = r) :
    (ledger ++ [e]).filter (·.ref = r) = entries ++ [e] := by
  rw [List.filter_append, h]
  simp [he]

/-- A new entry of one cell leaves those of another as they are. -/
theorem filter_snoc_of_ne {e : Entry} {r : Ref} (he : e.ref ≠ r) :
    (ledger ++ [e]).filter (·.ref = r) = ledger.filter (·.ref = r) := by
  rw [List.filter_append]
  simp [he]

/-- A cell that is made. -/
theorem make (hr : Recorded ledger h) (hb : ∀ c ∈ h.cells, c.ref < h.next) (b : Body) :
    Recorded (ledger ++ [.made h.next b.charge]) (h.alloc b).2 where
  balance := by
    have hbalance := hr.balance
    simp only [Heap.alloc, List.map_append, List.sum_append, List.map_cons, List.map_nil, List.sum_cons,
      List.sum_nil, Entry.added, Entry.taken]
    omega
  covered := hr.covered_snoc fun _ _ he => nomatch he
  live := by
    intro c hc
    rcases List.mem_cons.1 hc with rfl | hc
    · refine ⟨b.charge, [], ?_, rfl⟩
      have hnil : ledger.filter (·.ref = h.next) = [] := by
        refine List.filter_eq_nil_iff.2 ?_
        intro e he
        simp [Nat.ne_of_lt (hr.known e he)]
      exact filter_snoc_of_eq hnil rfl
    · rw [filter_snoc_of_ne (Nat.ne_of_gt (hb c hc))]
      exact hr.live c hc
  gone := by
    intro r hlt hdead
    have hne : h.next ≠ r := fun he => hdead ⟨_, List.mem_cons_self, he⟩
    rw [filter_snoc_of_ne (by exact hne)]
    refine hr.gone r (Nat.lt_of_le_of_ne (Nat.le_of_lt_succ hlt) (Ne.symm hne)) ?_
    rintro ⟨c, hc, he⟩
    exact hdead ⟨c, List.mem_cons_of_mem _ hc, he⟩
  known := by
    intro e he
    rcases List.mem_append.1 he with he | he
    · exact Nat.lt_succ_of_lt (hr.known e he)
    · cases List.mem_singleton.1 he
      exact Nat.lt_succ_self _

/-- A cell that goes. -/
theorem free {as bs : List Cell} {c : Cell} (hr : Recorded ledger h) (hs : h.Splits as c bs)
    (hlt : c.ref < h.next) (hle : c.body.charge ≤ h.used) :
    Recorded (ledger ++ [.gone c.ref c.body.charge]) (h.free c) where
  balance := by
    have hbalance := hr.balance
    simp only [Heap.free, List.map_append, List.sum_append, List.map_cons, List.map_nil, List.sum_cons,
      List.sum_nil, Entry.added, Entry.taken]
    omega
  covered := by
    refine hr.covered_snoc ?_
    rintro r n he
    cases he
    exact hle
  live := by
    intro d hd
    rw [hs.cells_free] at hd
    rw [filter_snoc_of_ne (Ne.symm (hs.others d hd))]
    exact hr.live d (hs.mem_iff.2 (.inr hd))
  gone := by
    intro r hlt hdead
    by_cases he : c.ref = r
    · subst he
      obtain ⟨n, ns, hentries, hsum⟩ := hr.live c hs.mem
      refine ⟨n, ns, ?_⟩
      rw [hsum]
      exact filter_snoc_of_eq hentries rfl
    · rw [filter_snoc_of_ne (by exact he)]
      refine hr.gone r hlt ?_
      rintro ⟨d, hd, hdr⟩
      rcases hs.mem_iff.1 hd with rfl | hd
      · exact he hdr
      · exact hdead ⟨d, hs.cells_free ▸ hd, hdr⟩
  known := by
    intro e he
    rcases List.mem_append.1 he with he | he
    · exact hr.known e he
    · cases List.mem_singleton.1 he
      exact hlt

/-- A cell that changes, and takes no less than before. -/
theorem change {as bs : List Cell} {c : Cell} {b : Body} (hr : Recorded ledger h) (hs : h.Splits as c bs)
    (hc : h.cell? c.ref = some c) (hlt : c.ref < h.next) (hle : c.body.charge ≤ b.charge) :
    Recorded (ledger ++ [.grown c.ref (b.charge - c.body.charge)]) (h.setBody c.ref b) where
  balance := by
    have hbalance := hr.balance
    simp only [Heap.setBody_of_cell hc, List.map_append, List.sum_append, List.map_cons, List.map_nil,
      List.sum_cons, List.sum_nil, Entry.added, Entry.taken]
    omega
  covered := hr.covered_snoc fun _ _ he => nomatch he
  live := by
    intro d hd
    rcases (hs.setBody hc b).mem_iff.1 hd with rfl | hd
    · obtain ⟨n, ns, hentries, hsum⟩ := hr.live c hs.mem
      refine ⟨n, ns ++ [b.charge - c.body.charge], ?_, ?_⟩
      · rw [List.map_append]
        exact filter_snoc_of_eq hentries rfl
      · simp only [List.sum_append, List.sum_cons, List.sum_nil]
        omega
    · rw [filter_snoc_of_ne (Ne.symm (hs.others d hd))]
      exact hr.live d (hs.mem_iff.2 (.inr hd))
  gone := by
    intro r hlt hdead
    have hnext : (h.setBody c.ref b).next = h.next := by
      rw [Heap.setBody_of_cell hc]
      rfl
    have hne : c.ref ≠ r := fun he => hdead ⟨_, (hs.setBody hc b).mem, he⟩
    rw [filter_snoc_of_ne (by exact hne)]
    refine hr.gone r (hnext ▸ hlt) ?_
    rintro ⟨d, hd, hdr⟩
    rcases hs.mem_iff.1 hd with rfl | hd
    · exact hne hdr
    · exact hdead ⟨d, (hs.setBody hc b).mem_iff.2 (.inr hd), hdr⟩
  known := by
    intro e he
    rw [Heap.setBody_of_cell hc]
    rcases List.mem_append.1 he with he | he
    · exact hr.known e he
    · cases List.mem_singleton.1 he
      exact hlt

/-- Counting references is not recorded. -/
theorem modify_count (hr : Recorded ledger h) (r : Ref) (count : Nat → Nat) :
    Recorded ledger (h.modify r fun c => { c with count := count c.count }) := by
  refine hr.of_charges rfl rfl ?_
  simp only [Heap.modify, List.map_map]
  refine List.map_congr_left ?_
  intro c _
  by_cases he : c.ref = r <;> simp [he]

/-- **A move keeps the ledger right.** -/
theorem move {s s' : Books} {entries : List Entry} (hr : Recorded ledger s.heap) (hx : s.Exact)
    (hm : Move s entries s') : Recorded (ledger ++ entries) s'.heap := by
  cases hm with
  | rearrange | plain | forget => simpa using hr
  | make => exact hr.make hx.below _
  | @copy h vs v _ =>
    rw [List.append_nil]
    unfold Heap.retain
    split
    · exact hr.modify_count _ (· + 1)
    · exact hr
  | lessen =>
    rw [List.append_nil]
    exact hr.modify_count _ (· - 1)
  | free cell found last covered =>
    obtain ⟨as, bs, hs⟩ := Heap.exists_splits found hx.distinct
    cases (Heap.cell?_eq_some found).2
    exact hr.free hs (hx.below _ hs.mem) covered
  | change found changes =>
    obtain ⟨as, bs, hs⟩ := Heap.exists_splits found hx.distinct
    cases (Heap.cell?_eq_some found).2
    exact hr.change hs found (hx.below _ hs.mem) changes.charge_le

/-- The record stays right over any number of moves. -/
theorem moves {s s' : Books} {entries : List Entry} (hr : Recorded ledger s.heap) (hx : s.Exact)
    (hm : Moves s entries s') : Recorded (ledger ++ entries) s'.heap := by
  induction hm with
  | none => rwa [List.append_nil]
  | more before move ih =>
    rw [← List.append_assoc]
    exact ih.move (hx.moves before) move

end Recorded

end TickScript
