import TickScript.Heap.Datum
import TickScript.Proofs.Heap.Accounts

/-!
# What can be done with a heap

Whoever holds references to a heap may build data in it, make tuples, objects and arrays of what is held,
copy a reference or one that a held value contains, give one back, and change the objects and arrays that
are held (`Handles`). All of it is made of moves, so it keeps the books exact (`Handles.reckons`).

Giving back every reference frees every cell, unless cells refer to each other in a circle
(`Books.Exact.release_all`).
-/

namespace TickScript

namespace Books

/-- The second books come of the first by moves, if the first are exact. -/
def Reckons (s s' : Books) : Prop := s.Exact → ∃ entries, Moves s entries s'

/-- Accounts stay exact over what reckons with every reference. -/
theorem Exact.reckons {s s' : Books} (hx : s.Exact) (h : Reckons s s') : s'.Exact := by
  obtain ⟨entries, hm⟩ := h hx
  exact hx.moves hm

namespace Reckons

theorem refl (s : Books) : Reckons s s := fun _ => ⟨[], .none⟩

theorem of_eq {s s' : Books} (h : s = s') : Reckons s s' := h ▸ refl s

/-- A move reckons with what it moves. -/
theorem of_move {s s' : Books} {entries : List Entry} (h : Move s entries s') : Reckons s s' :=
  fun _ => ⟨_, .more .none h⟩

/-- Putting values in another order is no matter of accounts. -/
theorem perm {h : Heap} {vs ws : List Value} (hp : vs.Perm ws) : Reckons ⟨h, vs⟩ ⟨h, ws⟩ :=
  of_move (.rearrange hp)

end Reckons

end Books

/-- Moves follow each other, and so do their entries. -/
theorem Moves.trans {s s' s'' : Books} {entries entries' : List Entry} (h : Moves s entries s')
    (h' : Moves s' entries' s'') : Moves s (entries ++ entries') s'' := by
  induction h' with
  | none => rwa [List.append_nil]
  | more _ move ih =>
    rw [← List.append_assoc]
    exact ih.more move

namespace Books

/-- What reckons with every reference does so step by step. -/
theorem Reckons.trans {s s' s'' : Books} (h : Reckons s s') (h' : Reckons s' s'') : Reckons s s'' := by
  intro hx
  obtain ⟨entries, hm⟩ := h hx
  obtain ⟨entries', hm'⟩ := h' (hx.moves hm)
  exact ⟨_, hm.trans hm'⟩

/-- No cell is charged for more than is in use. -/
theorem Exact.charge_le_used {s : Books} (hx : s.Exact) {r : Ref} {c : Cell} (hc : s.heap.cell? r = some c) :
    c.body.charge ≤ s.heap.used := by
  obtain ⟨as, bs, hs⟩ := Heap.exists_splits hc hx.distinct
  rw [hx.used, hs.charges_eq]
  exact Nat.le_add_right _ _

/-- A held reference is to a live cell. -/
theorem Exact.exists_cell? {s : Books} (hx : s.Exact) {v : Value} {r : Ref} (hv : v ∈ s.all)
    (hr : v.cell? = some r) : ∃ c, s.heap.cell? r = some c ∧ v.Shows c.body := by
  obtain ⟨c, hc, he, hshows⟩ := hx.shown v hv r hr
  obtain ⟨d, hd⟩ := Heap.exists_cell? (h := s.heap) ⟨c, hc, he⟩
  obtain ⟨as, bs, hs⟩ := Heap.exists_splits hd hx.distinct
  rcases hs.mem_iff.1 hc with rfl | hc
  · exact ⟨c, hd, hshows⟩
  · exact absurd (he.trans (Heap.cell?_eq_some hd).2.symm) (hs.others c hc)

/-- **Giving references back is made of moves**, down to the last cell that goes with them. -/
theorem reckons_release (h : Heap) (vs ws : List Value) :
    Reckons ⟨h, vs ++ ws⟩ ⟨h.release vs, ws⟩ := by
  fun_induction Heap.release h vs with
  | case1 h => exact .refl _
  | case2 h v vs hv ih => exact .trans (.of_move (.forget hv)) ih
  | case3 h v vs r hv hc ih =>
    intro hx
    obtain ⟨c, hc', -⟩ := hx.exists_cell? List.mem_cons_self hv
    cases hc.symm.trans hc'
  | case4 h v vs r hv c hc hle ih =>
    intro hx
    rw [List.append_assoc] at ih
    exact Reckons.trans (.of_move (.free hv hc hle (hx.charge_le_used hc))) ih hx
  | case5 h v vs r hv c hc hlt ih =>
    exact .trans (.of_move (.lessen hv hc (Nat.lt_of_not_le hlt))) ih

/-! ## Making values -/

/-- A new text is one more value. -/
theorem reckons_text (h : Heap) (s : String) (ws : List Value) :
    Reckons ⟨h, ws⟩ ⟨(h.text s).2, (h.text s).1 :: ws⟩ :=
  .of_move (.make (b := .text s) rfl rfl)

/-- A new tuple takes over its items. -/
theorem reckons_tuple (h : Heap) (items ws : List Value) :
    Reckons ⟨h, items ++ ws⟩ ⟨(h.tuple items).2, (h.tuple items).1 :: ws⟩ :=
  .of_move (.make (b := .tuple items) rfl rfl)

/-- A new object takes over its values. -/
theorem reckons_object (h : Heap) (names : List String) (values ws : List Value) :
    Reckons ⟨h, values ++ ws⟩ ⟨(h.object names values).2, (h.object names values).1 :: ws⟩ :=
  .of_move (.make (b := .object names values) rfl ⟨names, values, rfl⟩)

/-- A new array takes over its items. -/
theorem reckons_array (h : Heap) (items ws : List Value) :
    Reckons ⟨h, items ++ ws⟩ ⟨(h.array items).2, (h.array items).1 :: ws⟩ :=
  .of_move (.make (b := .array items.length items) rfl ⟨items.length, items, rfl⟩)

mutual

/-- A value that is built of a datum is one more value. -/
theorem reckons_build (h : Heap) (d : Datum) (ws : List Value) :
    Reckons ⟨h, ws⟩ ⟨(d.build h).2, (d.build h).1 :: ws⟩ := by
  cases d with
  | null | int _ | float _ => exact .of_move (.plain rfl)
  | text s => exact reckons_text h s ws
  | tuple items => exact (reckons_buildAll h items ws).trans (reckons_tuple _ _ ws)
  | object members => exact (reckons_buildMembers h members ws).trans (reckons_object _ _ _ ws)
  | array items => exact (reckons_buildAll h items ws).trans (reckons_array _ _ ws)

/-- So is each of several. -/
theorem reckons_buildAll (h : Heap) (ds : List Datum) (ws : List Value) :
    Reckons ⟨h, ws⟩ ⟨(buildAll h ds).2, (buildAll h ds).1 ++ ws⟩ := by
  cases ds with
  | nil => exact .refl _
  | cons d ds =>
    rw [buildAll]
    refine (reckons_build h d ws).trans ((reckons_buildAll _ ds _).trans (.perm ?_))
    exact List.perm_middle

/-- So is each that is a member. -/
theorem reckons_buildMembers (h : Heap) (ds : List (String × Datum)) (ws : List Value) :
    Reckons ⟨h, ws⟩ ⟨(buildMembers h ds).2, (buildMembers h ds).1 ++ ws⟩ := by
  cases ds with
  | nil => exact .refl _
  | cons d ds =>
    obtain ⟨called, d⟩ := d
    rw [buildMembers]
    refine (reckons_build h d ws).trans ((reckons_buildMembers _ ds _).trans (.perm ?_))
    exact List.perm_middle

end

/-! ## Changing objects and arrays -/

/-- A value that becomes a member goes over to the object, and the old one is dropped. -/
theorem reckons_setMember? {h h' : Heap} {r : Ref} {called : String} {v : Value}
    (hs : h.setMember? r called v = some h') (ws : List Value) : Reckons ⟨h, v :: ws⟩ ⟨h', ws⟩ := by
  unfold Heap.setMember? at hs
  split at hs
  · next names values hb =>
    obtain ⟨c, hc, hcb⟩ := Heap.body?_eq_some hb
    split at hs
    · next i _ =>
      split at hs
      · next old hold =>
        cases hs
        have hchange : c.body.Changes [v] [old] (.object names (values.set i v)) := by
          rw [hcb]
          exact .member hold
        exact .trans (.of_move (.change hc hchange)) (reckons_release _ [old] ws)
      · cases hs
    · cases hs
  · cases hs

/-- A value that becomes an item goes over to the array, and the old one is dropped. -/
theorem reckons_setItem? {h h' : Heap} {r : Ref} {i : Nat} {v : Value}
    (hs : h.setItem? r i v = some h') (ws : List Value) : Reckons ⟨h, v :: ws⟩ ⟨h', ws⟩ := by
  unfold Heap.setItem? at hs
  split at hs
  · next capacity items hb =>
    obtain ⟨c, hc, hcb⟩ := Heap.body?_eq_some hb
    split at hs
    · next old hold =>
      cases hs
      have hchange : c.body.Changes [v] [old] (.array capacity (items.set i v)) := by
        rw [hcb]
        exact .item hold
      exact .trans (.of_move (.change hc hchange)) (reckons_release _ [old] ws)
    · cases hs
  · cases hs

/-- Where nothing is taken off, nothing changes. -/
theorem popItem_eq_none {h h' : Heap} {r : Ref} (hp : h.popItem r = (none, h')) : h' = h := by
  unfold Heap.popItem at hp
  split at hp
  · split at hp
    · cases hp
    · cases hp
      rfl
  · cases hp
    rfl

/-- An array takes over what is pushed onto it. -/
theorem reckons_pushItem {h : Heap} {r : Ref} {v : Value} {ws : List Value} (hr : .array r ∈ ws) :
    Reckons ⟨h, v :: ws⟩ ⟨h.pushItem r v, ws⟩ := by
  intro hx
  obtain ⟨c, hc, capacity, items, hcb⟩ :=
    hx.exists_cell? (List.mem_append_left _ (List.mem_cons_of_mem _ hr)) rfl
  have hchange : Body.Changes (.array capacity items) [v] [] _ := .push
  rw [← hcb] at hchange
  unfold Heap.pushItem Heap.body?
  rw [hc, Option.map_some, hcb]
  exact Reckons.of_move (.change hc hchange) hx

/-- The last item of an array goes over to who takes it. -/
theorem reckons_popItem {h h' : Heap} {r : Ref} {v : Value} (hp : h.popItem r = (some v, h'))
    (ws : List Value) : Reckons ⟨h, ws⟩ ⟨h', v :: ws⟩ := by
  unfold Heap.popItem at hp
  split at hp
  · next capacity items hb =>
    obtain ⟨c, hc, hcb⟩ := Heap.body?_eq_some hb
    split at hp
    · next last hlast =>
      cases hp
      have hchange : Body.Changes (.array capacity (items.dropLast ++ [v])) [] [v] _ := .pop
      rw [List.dropLast_append_getLast? v hlast, ← hcb] at hchange
      exact .of_move (.change hc hchange)
    · cases hp
  · cases hp

/-- What a member of an object is, cells hold. -/
theorem mem_held_of_member? {h : Heap} {r : Ref} {called : String} {v : Value}
    (hv : h.member? r called = some v) : v ∈ h.held := by
  obtain ⟨m, hm, rfl⟩ := Option.map_eq_some_iff.1 hv
  have hmem := List.mem_of_find?_eq_some hm
  unfold Heap.members at hmem
  split at hmem
  · next names values hb => exact Heap.mem_held hb (List.of_mem_zip hmem).2
  · exact nomatch hmem

/-- The heap holds the items of its arrays. -/
theorem mem_held_of_items {h : Heap} {r : Ref} {v : Value} (hv : v ∈ h.items r) : v ∈ h.held := by
  unfold Heap.items at hv
  split at hv
  · next capacity items hb => exact Heap.mem_held hb hv
  · exact nomatch hv

/-- What a tuple consists of, its cell holds. -/
theorem Exact.mem_held_of_tuple {s : Books} (hx : s.Exact) {r : Ref} {flat : Nat} {items : List Value}
    (ht : .tuple r flat items ∈ s.all) {v : Value} (hv : v ∈ items) : v ∈ s.heap.held := by
  obtain ⟨c, hc, hshows⟩ := hx.exists_cell? ht rfl
  have hbody : s.heap.body? r = some (.tuple items) := by
    unfold Heap.body?
    rw [hc]
    exact congrArg some hshows
  exact Heap.mem_held hbody hv

end Books

/-! ## Handling a heap -/

/-- One thing that a holder of references does with a heap. The roots are what is held. -/
inductive Handles : Books → Books → Prop
  | rearrange {h : Heap} {vs ws : List Value} (perm : vs.Perm ws) : Handles ⟨h, vs⟩ ⟨h, ws⟩
  /-- Numbers, null and texts of the program itself are in no cell. -/
  | plain {h : Heap} {vs : List Value} (v : Value) (cell : v.cell? = none) : Handles ⟨h, vs⟩ ⟨h, v :: vs⟩
  | build {h : Heap} {vs : List Value} (d : Datum) : Handles ⟨h, vs⟩ ⟨(d.build h).2, (d.build h).1 :: vs⟩
  | tuple {h : Heap} {vs : List Value} (items : List Value) :
      Handles ⟨h, items ++ vs⟩ ⟨(h.tuple items).2, (h.tuple items).1 :: vs⟩
  | object {h : Heap} {vs : List Value} (names : List String) (values : List Value) :
      Handles ⟨h, values ++ vs⟩ ⟨(h.object names values).2, (h.object names values).1 :: vs⟩
  | array {h : Heap} {vs : List Value} (items : List Value) :
      Handles ⟨h, items ++ vs⟩ ⟨(h.array items).2, (h.array items).1 :: vs⟩
  | copy {h : Heap} {vs : List Value} {v : Value} (mem : v ∈ vs) : Handles ⟨h, vs⟩ ⟨h.retain v, v :: vs⟩
  | copyPart {h : Heap} {vs items : List Value} {r : Ref} {flat : Nat} {v : Value}
      (mem : .tuple r flat items ∈ vs) (part : v ∈ items) : Handles ⟨h, vs⟩ ⟨h.retain v, v :: vs⟩
  | copyMember {h : Heap} {vs : List Value} {r : Ref} {called : String} {v : Value} (mem : .object r ∈ vs)
      (part : h.member? r called = some v) : Handles ⟨h, vs⟩ ⟨h.retain v, v :: vs⟩
  | copyItem {h : Heap} {vs : List Value} {r : Ref} {i : Nat} {v : Value} (mem : .array r ∈ vs)
      (part : (h.items r)[i]? = some v) : Handles ⟨h, vs⟩ ⟨h.retain v, v :: vs⟩
  | drop {h : Heap} {vs : List Value} (v : Value) : Handles ⟨h, v :: vs⟩ ⟨h.release [v], vs⟩
  | setMember {h h' : Heap} {vs : List Value} {r : Ref} {called : String} {v : Value}
      (mem : .object r ∈ vs) (set : h.setMember? r called v = some h') : Handles ⟨h, v :: vs⟩ ⟨h', vs⟩
  | setItem {h h' : Heap} {vs : List Value} {r : Ref} {i : Nat} {v : Value} (mem : .array r ∈ vs)
      (set : h.setItem? r i v = some h') : Handles ⟨h, v :: vs⟩ ⟨h', vs⟩
  | push {h : Heap} {vs : List Value} {r : Ref} {v : Value} (mem : .array r ∈ vs) :
      Handles ⟨h, v :: vs⟩ ⟨h.pushItem r v, vs⟩
  | pop {h h' : Heap} {vs : List Value} {r : Ref} {v : Value} (mem : .array r ∈ vs)
      (popped : h.popItem r = (some v, h')) : Handles ⟨h, vs⟩ ⟨h', v :: vs⟩

/-- Whatever is done with the references of one holder keeps the books of all. -/
theorem Handles.reckons {h h' : Heap} {vs vs' : List Value} (hh : Handles ⟨h, vs⟩ ⟨h', vs'⟩)
    (ws : List Value) : Books.Reckons ⟨h, vs ++ ws⟩ ⟨h', vs' ++ ws⟩ := by
  cases hh with
  | rearrange perm => exact .perm (perm.append_right ws)
  | plain v cell => exact .of_move (.plain cell)
  | build d => exact Books.reckons_build h d _
  | tuple items =>
    rw [List.append_assoc]
    exact Books.reckons_tuple h items _
  | object names values =>
    rw [List.append_assoc]
    exact Books.reckons_object h names values _
  | array items =>
    rw [List.append_assoc]
    exact Books.reckons_array h items _
  | copy mem => exact .of_move (.copy (List.mem_append_left _ (List.mem_append_left _ mem)))
  | copyPart mem part =>
    intro hx
    have hheld := hx.mem_held_of_tuple (List.mem_append_left _ (List.mem_append_left _ mem)) part
    exact Books.Reckons.of_move (.copy (List.mem_append_right _ hheld)) hx
  | copyMember _ part =>
    exact .of_move (.copy (List.mem_append_right _ (Books.mem_held_of_member? part)))
  | copyItem _ part =>
    exact .of_move (.copy (List.mem_append_right _
      (Books.mem_held_of_items (List.mem_of_getElem? part))))
  | drop v => exact Books.reckons_release h [v] _
  | setMember _ set => exact Books.reckons_setMember? set _
  | setItem _ set => exact Books.reckons_setItem? set _
  | push mem => exact Books.reckons_pushItem (List.mem_append_left _ mem)
  | pop _ popped => exact Books.reckons_popItem popped _

/-! ## Circles -/

namespace Heap

/-- A cell holds a reference to another. -/
def Refers (h : Heap) (r r' : Ref) : Prop :=
  ∃ c ∈ h.cells, c.ref = r ∧ ∃ v ∈ c.body.held, v.cell? = some r'

/-- No cell refers to itself, not even through others. -/
def Acyclic (h : Heap) : Prop := ∀ r, ¬ Relation.TransGen h.Refers r r

/-- What is left after references were given back is as it was. -/
theorem exists_of_mem_release {h : Heap} {vs : List Value} {c : Cell} (hc : c ∈ (h.release vs).cells) :
    ∃ d ∈ h.cells, d.ref = c.ref ∧ d.body = c.body := by
  fun_induction release h vs with
  | case1 h => exact ⟨c, hc, rfl, rfl⟩
  | case2 h v vs hv ih => exact ih hc
  | case3 h v vs r hv hnone ih => exact ih hc
  | case4 h v vs r hv d hd hle ih =>
    obtain ⟨e, he, hsame⟩ := ih hc
    exact ⟨e, List.mem_of_mem_filter he, hsame⟩
  | case5 h v vs r hv d hd hlt ih =>
    obtain ⟨e, he, hsame⟩ := ih hc
    obtain ⟨e', he', rfl⟩ := List.mem_map.1 he
    refine ⟨e', he', ?_⟩
    split at hsame <;> exact hsame

/-- Dropping values makes no cycle. -/
theorem Acyclic.release {h : Heap} (ha : h.Acyclic) (vs : List Value) : (h.release vs).Acyclic := by
  have hmono : (h.release vs).Refers ≤ h.Refers := by
    rintro r r' ⟨c, hc, rfl, v, hv, he⟩
    obtain ⟨d, hd, href, hbody⟩ := exists_of_mem_release hc
    exact ⟨d, hd, href, v, hbody ▸ hv, he⟩
  intro r hr
  exact ha r (Relation.TransGen.mono hmono r r hr)

end Heap

namespace Books

/-- A cell that no root refers to is referred to by a cell. -/
theorem Exact.exists_refers {h : Heap} (hx : Exact ⟨h, []⟩) {r : Ref} (hr : h.Live r) :
    ∃ r', h.Live r' ∧ h.Refers r' r := by
  obtain ⟨c, hc, rfl⟩ := hr
  obtain ⟨hcount, hpos⟩ := hx.counted c hc
  rw [hcount, references_pos] at hpos
  obtain ⟨v, hv, hcell⟩ := hpos
  obtain ⟨d, hd, hvd⟩ := List.mem_flatMap.1 (show v ∈ h.held from hv)
  exact ⟨d.ref, ⟨d, hd, rfl⟩, d, hd, rfl, v, hvd, hcell⟩

/-- Without roots and circles there are no cells: there would be one that no other refers to. -/
theorem Exact.cells_eq_nil {h : Heap} (hx : Exact ⟨h, []⟩) (ha : h.Acyclic) : h.cells = [] := by
  refine List.eq_nil_iff_forall_not_mem.2 ?_
  intro c hc
  let leads : {r // r ∈ h.cells.map Cell.ref} → {r // r ∈ h.cells.map Cell.ref} → Prop :=
    fun r r' => Relation.TransGen h.Refers r.1 r'.1
  have hfinite : Finite {r // r ∈ h.cells.map Cell.ref} := List.finite_toSet _
  have htrans : IsTrans _ leads := ⟨fun _ _ _ hr hr' => hr.trans hr'⟩
  have hirrefl : Std.Irrefl leads := ⟨fun r hr => ha r.1 hr⟩
  have hwf := Finite.wellFounded_of_trans_of_irrefl leads
  obtain ⟨m, -, hmin⟩ := hwf.has_min Set.univ ⟨⟨c.ref, List.mem_map_of_mem hc⟩, trivial⟩
  obtain ⟨d, hd, hdm⟩ := List.mem_map.1 m.2
  obtain ⟨r, ⟨e, he, rfl⟩, hrefers⟩ := hx.exists_refers ⟨d, hd, hdm⟩
  exact hmin ⟨e.ref, List.mem_map_of_mem he⟩ trivial (.single hrefers)

/-- **Giving everything back leaves nothing**, where no cells refer to each other in a circle. -/
theorem Exact.release_all {h : Heap} {vs : List Value} (hx : Exact ⟨h, vs⟩) (ha : h.Acyclic) :
    (h.release vs).cells = [] ∧ (h.release vs).used = 0 := by
  have hreckons := reckons_release h vs []
  rw [List.append_nil] at hreckons
  have hx' := hx.reckons hreckons
  have hnil := hx'.cells_eq_nil (ha.release vs)
  have hused : (h.release vs).used = (h.release vs).charges := hx'.used
  refine ⟨hnil, hused.trans ?_⟩
  unfold Heap.charges
  rw [hnil]
  rfl

end Books

end TickScript
